import AgenticOrg.Cases.Runs
import AgenticOrg.Cases.Investigation.Stranded

namespace AgenticOrg.Cases

section Changes

variable (case after : Case) (target : Option CaseState) (reason : String) (type : Option EventType)

-- One change of the case: its next version, with the transition and the event it writes, where it writes one.
def Changed : Prop :=
  after.version = case.version + 1 ∧
    after.transitions = case.transitions ++
      target.toList.map (fun target => ⟨case.version + 1, target, clipReason reason⟩) ∧
    after.outbox = case.outbox ++ type.toList.map fun type => ⟨case.version + 1, type⟩

theorem transition_changed (target : CaseState) (hv : Versioned case)
    (h : transition case target reason = .ok after) :
    Changed case after (some target) reason (eventTypeFor case target) := by
  obtain ⟨_, rfl⟩ := transition_ok case target reason after hv h
  exact ⟨rfl, rfl, rfl⟩

theorem recordUpdate_changed (hv : Versioned case) :
    Changed case (recordUpdate case) none reason (some .updated) := by
  rw [recordUpdate_eq case hv]
  exact ⟨rfl, by simp, rfl⟩

theorem eventsAt_old (h : Changed case after target reason type) (version : ℕ) (hle : version ≤ case.version) :
    after.eventsAt version = case.eventsAt version := by
  unfold Case.eventsAt
  rw [h.2.2, List.filter_append, List.map_append]
  refine List.append_right_eq_self.mpr ?_
  rw [List.map_eq_nil_iff, List.filter_eq_nil_iff]
  intro event hevent
  obtain ⟨type, _, rfl⟩ := List.mem_map.mp hevent
  simp only [decide_eq_true_eq]
  omega

theorem eventsAt_new (hv : Versioned case) (h : Changed case after target reason type) :
    after.eventsAt (case.version + 1) = type.toList := by
  have hold : case.outbox.filter (fun event => event.version = case.version + 1) = [] := by
    rw [List.filter_eq_nil_iff]
    intro event hevent
    have hle := hv.outbox event hevent
    simp only [decide_eq_true_eq]
    omega
  unfold Case.eventsAt
  rw [h.2.2, List.filter_append, hold]
  cases type with
  | none => rfl
  | some type => simp

theorem arrivals_le (hv : Versioned case) (version : ℕ) (h : version ∈ case.arrivals) : version ≤ case.version := by
  obtain ⟨entry, hentry, rfl⟩ := List.mem_map.mp h
  exact hv.transitions entry (List.mem_filter.mp hentry).1

theorem arrivals_changed (h : Changed case after target reason type) :
    after.arrivals = case.arrivals ++ if target = some .awaitingDecision then [case.version + 1] else [] := by
  unfold Case.arrivals
  rw [h.2.1, List.filter_append, List.map_append]
  cases target with
  | none => rfl
  | some target =>
      by_cases ht : target = .awaitingDecision
      · simp [ht]
      · simp [ht]

-- The events of the arrivals there were stay as they are.
theorem arrivalEvents_changed (hv : Versioned case) (h : Changed case after target reason type) :
    after.arrivalEvents =
      case.arrivalEvents ++ if target = some .awaitingDecision then [type.toList] else [] := by
  have hold : case.arrivals.map after.eventsAt = case.arrivalEvents :=
    List.map_congr_left fun version hversion =>
      eventsAt_old case after target reason type h version (arrivals_le case hv version hversion)
  unfold Case.arrivalEvents at hold ⊢
  rw [arrivals_changed case after target reason type h, List.map_append, hold]
  split
  · rw [List.map_singleton, eventsAt_new case after target reason type hv h]
  · rfl

theorem nodup_newer {α : Type} (versions : List ℕ) (bound : ℕ) (hle : ∀ version ∈ versions, version ≤ bound)
    (hn : versions.Nodup) (new : Option α) : (versions ++ new.toList.map fun _ => bound + 1).Nodup := by
  cases new with
  | none => simpa using hn
  | some new =>
      refine List.nodup_append.mpr ⟨hn, List.nodup_singleton _, fun version hold other hnew => ?_⟩
      have hbound := hle version hold
      rw [List.mem_singleton.mp hnew]
      exact Nat.ne_of_lt (Nat.lt_succ_of_le hbound)

theorem Recorded.changed (hr : Recorded case) (h : Changed case after target reason type)
    (ht : ∀ state ∈ target, state ∈ ANNOUNCED → type.isSome = true) : Recorded after := by
  obtain ⟨hv, hone, hids, hversions⟩ := hr
  have hnewer : ∀ version ≤ case.version, version ≤ after.version := by
    intro version hle
    have hversion := h.1
    omega
  refine ⟨⟨?_, ?_⟩, ?_, ?_, ?_⟩
  · rw [h.2.1]
    intro entry hentry
    rcases List.mem_append.mp hentry with hold | hnew
    · exact hnewer _ (hv.transitions entry hold)
    · obtain ⟨state, _, rfl⟩ := List.mem_map.mp hnew
      exact Nat.le_of_eq h.1.symm
  · rw [h.2.2]
    intro event hevent
    rcases List.mem_append.mp hevent with hold | hnew
    · exact hnewer _ (hv.outbox event hold)
    · obtain ⟨type, _, rfl⟩ := List.mem_map.mp hnew
      exact Nat.le_of_eq h.1.symm
  · rw [h.2.1]
    intro entry hentry hannounced
    rcases List.mem_append.mp hentry with hold | hnew
    · rw [eventsAt_old case after target reason type h entry.version (hv.transitions entry hold)]
      exact hone entry hold hannounced
    · obtain ⟨state, hstate, rfl⟩ := List.mem_map.mp hnew
      obtain ⟨told, rfl⟩ := Option.isSome_iff_exists.mp (ht state (Option.mem_toList.mp hstate) hannounced)
      rw [eventsAt_new case after target reason (some told) hv h]
      rfl
  · rw [h.2.2, List.map_append, List.map_map]
    refine nodup_newer _ case.version (fun version hversion => ?_) hids type
    obtain ⟨event, hevent, rfl⟩ := List.mem_map.mp hversion
    exact hv.outbox event hevent
  · rw [h.2.1, List.map_append, List.map_map]
    refine nodup_newer _ case.version (fun version hversion => ?_) hversions target
    obtain ⟨entry, hentry, rfl⟩ := List.mem_map.mp hversion
    exact hv.transitions entry hentry

end Changes

section InOrder

theorem inOrder_append (events : List (List EventType)) (told : List EventType) :
    InOrder (events ++ [told]) ↔ InOrder events ∧ told = if events = [] then [.completed] else [.updated] := by
  cases events with
  | nil => simp [InOrder]
  | cons first rest =>
      simp only [InOrder, List.cons_append, List.take_succ_cons, List.take_zero, List.drop_succ_cons, List.drop_zero,
        reduceCtorEq, if_false, List.forall_mem_append, List.forall_mem_singleton, and_assoc]

end InOrder

end AgenticOrg.Cases
