import AgenticOrg.Workflows.Results
import AgenticOrg.Workflows.Sort.Theorems

namespace AgenticOrg.Workflows

open OrderedDict

section Records

variable (state : RunState) (results : Dict Scalar StepResult) (id : Scalar) (result : StepResult)
  (status : RunStatus)

@[simp] theorem withResults_status : (state.withResults results).status = state.status := rfl

@[simp] theorem record_stepResults :
    (state.record id result).stepResults = state.stepResults.insert id result := rfl

@[simp] theorem release_stepResults :
    (state.release id result status).stepResults = state.stepResults.insert id result := rfl

@[simp] theorem release_status : (state.release id result status).status = status := rfl

end Records

section Index

theorem mem_of_lookup (steps : List Step) (id : Scalar) (step : Step)
    (h : (buildStepIndex steps).get? id = some step) : step ∈ steps ∧ (step.id == id) = true := by
  obtain ⟨entry, he, hk, rfl⟩ := Dict.mem_of_get?_ofList _ id step h
  obtain ⟨found, hf, rfl⟩ := List.mem_map.mp he
  exact ⟨hf, hk⟩

theorem contains_buildStepIndex (steps : List Step) (id : Scalar) :
    (buildStepIndex steps).contains id = named steps id := by
  rw [buildStepIndex, Dict.contains_ofList, List.any_map]
  rfl

end Index

section Branches

-- What the branch bookkeeping can do for one path: nothing, or one skip.
theorem skipPath_cases (target : Option Scalar) (results : Dict Scalar StepResult)
    (path : Option Scalar) :
    (skipPath target results path = results ∧
      ∀ other, pathOf path = some other →
        target.any (other == ·) = true ∨ results.contains other = true) ∨
    ∃ other, pathOf path = some other ∧ target.any (other == ·) = false ∧
      results.contains other = false ∧
      skipPath target results path = results.insert other (skippedResult "branch_not_taken") := by
  unfold skipPath
  cases hp : pathOf path with
  | none => exact .inl ⟨rfl, fun other h => by cases h⟩
  | some other =>
      cases ht : target.any (other == ·) with
      | true => exact .inl ⟨by simp [ht], fun found h => by cases h; exact .inl ht⟩
      | false =>
          cases hc : results.contains other with
          | true => exact .inl ⟨by simp [hc], fun found h => by cases h; exact .inr hc⟩
          | false => exact .inr ⟨other, rfl, ht, hc, by simp [ht, hc]⟩

theorem get?_skipPath (target : Option Scalar) (results : Dict Scalar StepResult)
    (path : Option Scalar) (id : Scalar) :
    (skipPath target results path).get? id = results.get? id ∨
      results.contains id = false ∧ (∃ other, pathOf path = some other ∧ (other == id) = true) ∧
        target.any (id == ·) = false ∧
        (skipPath target results path).get? id = some (skippedResult "branch_not_taken") := by
  rcases skipPath_cases target results path with ⟨h, -⟩ | ⟨other, hp, ht, hc, h⟩
  · exact .inl (by rw [h])
  · rw [h, Dict.get?_insert]
    cases hb : other == id with
    | false => exact .inl rfl
    | true =>
        refine .inr ⟨?_, ⟨other, hp, hb⟩, ?_, rfl⟩
        · rw [← Dict.contains_congr results other id hb, hc]
        · cases target with
          | none => rfl
          | some found =>
              have hne : (other == found) = false := ht
              show (id == found) = false
              rw [← BEq.congr_left hb, hne]

theorem contains_skipPath (target : Option Scalar) (results : Dict Scalar StepResult)
    (path : Option Scalar) (id : Scalar) (hc : results.contains id = true) :
    (skipPath target results path).contains id = true := by
  rcases get?_skipPath target results path id with h | ⟨h, -⟩
  · rwa [← Dict.isSome_get?, h, Dict.isSome_get?]
  · rw [hc] at h
    cases h

theorem contains_skipPath_of_path (target : Option Scalar) (results : Dict Scalar StepResult)
    (path : Option Scalar) (other : Scalar) (hp : pathOf path = some other)
    (ht : target.any (other == ·) = false) : (skipPath target results path).contains other = true := by
  rcases skipPath_cases target results path with ⟨h, hall⟩ | ⟨found, hf, -, -, h⟩
  · rcases hall other hp with h' | h'
    · rw [ht] at h'
      cases h'
    · rwa [h]
  · rw [hp] at hf
    cases hf
    rw [h, Dict.contains_insert, BEq.rfl]
    rfl

theorem mem_keys_skipPath (target : Option Scalar) (results : Dict Scalar StepResult)
    (path : Option Scalar) (key : Scalar) (hk : key ∈ (skipPath target results path).keys) :
    key ∈ results.keys ∨ pathOf path = some key := by
  rcases skipPath_cases target results path with ⟨h, -⟩ | ⟨other, hp, -, -, h⟩
  · exact .inl (by rwa [h] at hk)
  · rw [h] at hk
    rcases Dict.mem_keys_insert results other _ key hk with rfl | hk
    · exact .inr hp
    · exact .inl hk

variable (known : Scalar → Bool) (step : Step) (result : Json) (entry : StepResult)
  (results : Dict Scalar StepResult)

theorem contains_branchResults_self :
    (branchResults known step result entry results).contains step.id = true := by
  unfold branchResults
  split
  · apply contains_skipPath
    apply contains_skipPath
    rw [Dict.contains_insert, BEq.rfl]
    rfl
  · rw [Dict.contains_insert, BEq.rfl]
    rfl

theorem contains_branchResults (id : Scalar) (hc : results.contains id = true) :
    (branchResults known step result entry results).contains id = true := by
  unfold branchResults
  split
  · apply contains_skipPath
    apply contains_skipPath
    rw [Dict.contains_insert, hc, Bool.or_true]
  · rw [Dict.contains_insert, hc, Bool.or_true]

-- A key of the results is an old one, the step, or a path of a condition step.
theorem mem_keys_branchResults (key : Scalar)
    (hk : key ∈ (branchResults known step result entry results).keys) :
    key ∈ results.keys ∨ key = step.id ∨
      step.type = some .condition ∧
        (pathOf step.truePath = some key ∨ pathOf step.falsePath = some key) := by
  unfold branchResults at hk
  split at hk
  · rename_i htype
    rcases mem_keys_skipPath _ _ _ key hk with hk | hp
    · rcases mem_keys_skipPath _ _ _ key hk with hk | hp
      · rcases Dict.mem_keys_insert results step.id _ key hk with rfl | hk
        · exact .inr (.inl rfl)
        · exact .inl hk
      · exact .inr (.inr ⟨htype, .inl hp⟩)
    · exact .inr (.inr ⟨htype, .inr hp⟩)
  · rcases Dict.mem_keys_insert results step.id _ key hk with rfl | hk
    · exact .inr (.inl rfl)
    · exact .inl hk

-- The entry of the step itself: what was recorded, and the target a condition notes down.
def branchEntry : StepResult :=
  if step.type = some .condition then
    { entry with branchTarget := (pathOf (resolveConditionBranch step result)).filter known }
  else entry

theorem get?_branchResults_self :
    (branchResults known step result entry results).get? step.id =
      some (branchEntry known step result entry) := by
  have hskip : ∀ target dict path, dict.contains step.id = true →
      (skipPath target dict path).get? step.id = dict.get? step.id := by
    intro target dict path hc
    rcases get?_skipPath target dict path step.id with h | ⟨h, -⟩
    · exact h
    · rw [hc] at h
      cases h
  unfold branchResults branchEntry
  split
  · dsimp only
    rw [skipBranchNotTaken, hskip, hskip, Dict.get?_insert_self]
    · simp
    · apply contains_skipPath
      simp
  · rw [Dict.get?_insert_self]

-- Elsewhere the results stay, but for a skip at a path that had none.
theorem get?_branchResults (id : Scalar) (hne : (step.id == id) = false) :
    (branchResults known step result entry results).get? id = results.get? id ∨
      results.contains id = false ∧ step.type = some .condition ∧
        (∃ other, (pathOf step.truePath = some other ∨ pathOf step.falsePath = some other) ∧
          (other == id) = true) ∧
        (branchResults known step result entry results).get? id =
          some (skippedResult "branch_not_taken") := by
  have hinsert : ∀ value, (results.insert step.id value).get? id = results.get? id := by
    intro value
    rw [Dict.get?_insert, hne]
    rfl
  have hcontains : ∀ value, (results.insert step.id value).contains id = results.contains id := by
    intro value
    rw [Dict.contains_insert, hne, Bool.false_or]
  unfold branchResults
  split
  · rename_i htype
    dsimp only
    rw [skipBranchNotTaken]
    rcases get?_skipPath (resolveConditionBranch step result)
      (skipPath (resolveConditionBranch step result) (results.insert step.id _) step.truePath)
      step.falsePath id with h | ⟨hc, ⟨other, ho, hb⟩, -, h⟩
    · rw [h]
      rcases get?_skipPath (resolveConditionBranch step result) (results.insert step.id _)
        step.truePath id with h' | ⟨hc, ⟨other, ho, hb⟩, -, h'⟩
      · exact .inl (h'.trans (hinsert _))
      · exact .inr ⟨(hcontains _).symm.trans hc, htype, ⟨other, .inl ho, hb⟩, h'⟩
    · refine .inr ⟨?_, htype, ⟨other, .inr ho, hb⟩, h⟩
      cases hr : results.contains id with
      | false => rfl
      | true =>
          rw [contains_skipPath _ _ _ id ((hcontains _).trans hr)] at hc
          cases hc
  · exact .inl (hinsert _)

-- A path of a condition step is skipped, or it is the target that is noted down.
theorem branchResults_target (path : Scalar) (htype : step.type = some .condition)
    (hpath : pathOf step.truePath = some path ∨ pathOf step.falsePath = some path)
    (ht : path.isText = true) (hk : known path = true) :
    (branchResults known step result entry results).contains path = true ∨
      (branchEntry known step result entry).branchTarget = some path := by
  have htruthy : path.truthy = true := by
    rcases hpath with h | h <;> exact (Option.filter_eq_some_iff.mp h).2
  cases hany : (resolveConditionBranch step result).any (path == ·) with
  | false =>
      left
      unfold branchResults
      rw [if_pos htype]
      rcases hpath with h | h
      · apply contains_skipPath
        exact contains_skipPath_of_path _ _ _ path h hany
      · exact contains_skipPath_of_path _ _ _ path h hany
  | true =>
      right
      obtain ⟨target, htarget, hb⟩ := (Option.any_eq_true _ _).mp hany
      have hsame : target = path := by
        have htext := Scalar.isText_of_beq target path (BEq.symm hb) ht
        exact Scalar.eq_of_beq_text target path htext ht (BEq.symm hb)
      simp [branchEntry, htype, htarget, hsame, pathOf, Option.filter, htruthy, hk]

end Branches

section Dependencies

theorem mem_fallbackSources (stepId source : Scalar) (steps : List Step)
    (h : source ∈ fallbackSources stepId steps) :
    ∃ step ∈ steps, step.id = source ∧
      (fallbackTarget step).any (fun target => Scalar.str target == stepId) = true := by
  obtain ⟨step, hs, rfl⟩ := List.mem_map.mp h
  obtain ⟨hm, hcond⟩ := List.mem_filter.mp hs
  exact ⟨step, hm, rfl, (Bool.and_eq_true_iff.mp hcond).2⟩

-- The sources of a step are steps that name it, and dependencies whose recorded result does.
theorem mem_sourcesOf (step : Step) (state : RunState) (source : Scalar)
    (h : source ∈ sourcesOf step state) :
    source ∈ fallbackSources step.id state.definition.steps ∨
      source ∈ step.deps ∧ ((state.stepResults.get? source).bind StepResult.fallbackTarget).any
        (fun target => Scalar.str target == step.id) = true := by
  unfold sourcesOf at h
  generalize fallbackSources step.id state.definition.steps = found at h ⊢
  generalize step.deps = deps at h ⊢
  induction deps generalizing found with
  | nil => exact .inl h
  | cons dep rest ih =>
      rw [List.foldl_cons] at h
      rcases ih _ h with h | ⟨hm, hr⟩
      · split at h
        · rename_i hcond
          rcases List.mem_append.mp h with h | h
          · exact .inl h
          · rw [List.mem_singleton.mp h]
            exact .inr ⟨by simp, (Bool.and_eq_true_iff.mp hcond).2⟩
        · exact .inl h
      · exact .inr ⟨List.mem_cons_of_mem dep hm, hr⟩

theorem checkSources_congr (sources : List Scalar) (results results' : Dict Scalar StepResult)
    (h : ∀ id ∈ sources, results.get? id = results'.get? id) :
    checkSources sources results = checkSources sources results' := by
  have hc : ∀ id ∈ sources, results.contains id = results'.contains id := by
    intro id hid
    rw [← Dict.isSome_get?, h id hid, Dict.isSome_get?]
  have hfind : sources.find? (fun source => !results.contains source) =
      sources.find? (fun source => !results'.contains source) := by
    rw [← List.head?_filter, ← List.head?_filter, List.filter_congr]
    intro id hid
    rw [hc id hid]
  have hany : (sources.any fun source => statusOf results source = some .failed) =
      sources.any fun source => statusOf results' source = some .failed := by
    rw [Bool.eq_iff_iff, List.any_eq_true, List.any_eq_true]
    constructor
    · rintro ⟨id, hid, hs⟩
      exact ⟨id, hid, by rwa [statusOf, ← h id hid]⟩
    · rintro ⟨id, hid, hs⟩
      exact ⟨id, hid, by rwa [statusOf, h id hid]⟩
  unfold checkSources
  rw [hfind, hany]

-- The verdict on a step reads the results of steps and of its dependencies only.
theorem checkDependencies_congr (step : Step) (state state' : RunState)
    (hd : state.definition = state'.definition)
    (hids : ∀ found ∈ state.definition.steps,
      state.stepResults.get? found.id = state'.stepResults.get? found.id)
    (hdeps : ∀ dep ∈ step.deps, state.stepResults.get? dep = state'.stepResults.get? dep) :
    checkDependencies step state = checkDependencies step state' := by
  have hsources : sourcesOf step state = sourcesOf step state' := by
    unfold sourcesOf
    rw [hd]
    apply List.foldl_ext
    intro sources dep hm
    rw [hdeps dep hm]
  have hcheck : checkSources (sourcesOf step state) state.stepResults =
      checkSources (sourcesOf step state) state'.stepResults := by
    apply checkSources_congr
    intro source hs
    rcases mem_sourcesOf step state source hs with h | ⟨h, -⟩
    · obtain ⟨found, hf, rfl, -⟩ := mem_fallbackSources step.id source state.definition.steps h
      exact hids found hf
    · exact hdeps source h
  have hsome : (step.deps.filter fun dep => !((sourcesOf step state).any (· == dep))).findSome?
        (checkDependency state.stepResults) =
      (step.deps.filter fun dep => !((sourcesOf step state).any (· == dep))).findSome?
        (checkDependency state'.stepResults) := by
    rw [← List.head?_filterMap, ← List.head?_filterMap, List.filterMap_congr]
    intro dep hm
    unfold checkDependency
    rw [hdeps dep (List.mem_filter.mp hm).1]
  unfold checkDependencies
  simp only [hcheck, hsome, ← hsources]

theorem checkDependency_eq_none (results : Dict Scalar StepResult) (dep : Scalar) :
    checkDependency results dep = none ↔ statusOf results dep = some .completed := by
  unfold checkDependency statusOf
  cases results.get? dep with
  | none => simp
  | some result =>
      dsimp only
      split
      · rename_i hs
        simp [hs]
      · rename_i hs _
        simp [hs]
      · rename_i hs _
        simpa using hs

-- A step that may run: its sources have a result, and whatever else it depends on has completed.
theorem checkDependencies_none (step : Step) (state : RunState)
    (h : checkDependencies step state = none) :
    (∀ source ∈ sourcesOf step state, state.stepResults.contains source = true) ∧
      ∀ dep ∈ step.deps, (sourcesOf step state).any (· == dep) = true ∨
        statusOf state.stepResults dep = some .completed := by
  unfold checkDependencies at h
  dsimp only at h
  cases hs : checkSources (sourcesOf step state) state.stepResults with
  | some reason =>
      rw [hs] at h
      cases h
  | none =>
      rw [hs] at h
      constructor
      · intro source hm
        unfold checkSources at hs
        cases hf : (sourcesOf step state).find? fun source => !state.stepResults.contains source with
        | some found =>
            rw [hf] at hs
            cases hs
        | none => simpa using List.find?_eq_none.mp hf source hm
      · intro dep hm
        cases ha : (sourcesOf step state).any (· == dep) with
        | true => exact .inl rfl
        | false =>
            refine .inr ((checkDependency_eq_none _ _).mp ?_)
            exact List.findSome?_eq_none_iff.mp h dep (List.mem_filter.mpr ⟨hm, by simp [ha]⟩)

-- Without sources a step is skipped for a dependency that has not completed.
theorem checkDependencies_some (step : Step) (state : RunState) (reason : String)
    (hs : sourcesOf step state = []) (h : checkDependencies step state = some reason) :
    ∃ dep ∈ step.deps, statusOf state.stepResults dep ≠ some .completed := by
  unfold checkDependencies at h
  dsimp only at h
  rw [hs] at h
  obtain ⟨dep, hm, hd⟩ := List.exists_of_findSome?_eq_some h
  refine ⟨dep, (List.mem_filter.mp hm).1, ?_⟩
  intro hc
  rw [(checkDependency_eq_none _ _).mpr hc] at hd
  cases hd

end Dependencies

section Settle

variable (known : Scalar → Bool) (step : Step) (status : StepStatus) (result : Json)
  (state : RunState)

def RunStatus.isPaused : RunStatus → Bool
  | .waitingHitl | .waitingDelay | .waitingEvent => true
  | _ => false

theorem pauseOf_some (paused : RunStatus) (event : Event)
    (h : pauseOf step status result = some (paused, event)) :
    paused.isPaused = true ∧ event ≠ .stepCheckpointed := by
  unfold pauseOf at h
  split at h
  · cases h
    exact ⟨rfl, by simp⟩
  · split at h
    · cases h
      exact ⟨rfl, by simp⟩
    · split at h
      · cases h
        exact ⟨rfl, by simp⟩
      · cases h

-- The three ways a step is settled: it fails the run, it pauses it, or it goes on.
theorem settle_cases :
    (status = .failed ∧ stepAllowsFailure step = false ∧
      settle known step status result state =
        ({ state.record step.id (recordedResult step status result) with status := .failed },
          .stepFailed (result.get "error"))) ∨
    (¬ (status = .failed ∧ stepAllowsFailure step = false) ∧
      ((∃ paused event, paused.isPaused = true ∧ event ≠ .stepCheckpointed ∧
        settle known step status result state =
          ({ state.withResults
              (branchResults known step result (recordedResult step status result) state.stepResults) with
              status := paused, waitingStepId := some step.id }, event)) ∨
      settle known step status result state =
        (state.withResults
          (branchResults known step result (recordedResult step status result) state.stepResults),
          .stepCheckpointed))) := by
  unfold settle
  by_cases hf : status = .failed ∧ stepAllowsFailure step = false
  · exact .inl ⟨hf.1, hf.2, by simp only [hf, and_self, if_true]⟩
  · refine .inr ⟨hf, ?_⟩
    simp only [hf, if_false]
    cases hp : pauseOf step status result with
    | none => exact .inr rfl
    | some found =>
        obtain ⟨paused, event⟩ := found
        obtain ⟨hpaused, hevent⟩ := pauseOf_some step status result paused event hp
        exact .inl ⟨paused, event, hpaused, hevent, rfl⟩

-- The events a settled step is saved under.
theorem settle_event :
    (∃ error, (settle known step status result state).2 = .stepFailed error) ∨
    (settle known step status result state).2 = .waitingHitl ∨
    (∃ resumeAt, (settle known step status result state).2 = .waitingDelay resumeAt) ∨
    (∃ eventType, (settle known step status result state).2 = .waitingEvent eventType) ∨
    (settle known step status result state).2 = .stepCheckpointed := by
  unfold settle pauseOf
  by_cases hf : status = .failed ∧ stepAllowsFailure step = false
  · exact .inl ⟨_, by rw [if_pos hf]⟩
  · rw [if_neg hf]
    split_ifs
    · exact .inr (.inl rfl)
    · exact .inr (.inr (.inl ⟨_, rfl⟩))
    · exact .inr (.inr (.inr (.inl ⟨_, rfl⟩)))
    · exact .inr (.inr (.inr (.inr rfl)))

theorem settle_definition :
    (settle known step status result state).1.definition = state.definition := by
  rcases settle_cases known step status result state with
    ⟨-, -, h⟩ | ⟨-, ⟨paused, event, -, -, h⟩ | h⟩ <;> rw [h] <;> rfl

theorem contains_settle_self :
    (settle known step status result state).1.stepResults.contains step.id = true := by
  rcases settle_cases known step status result state with
    ⟨-, -, h⟩ | ⟨-, ⟨paused, event, -, -, h⟩ | h⟩ <;> rw [h]
  · simp
  · exact contains_branchResults_self _ _ _ _ _
  · exact contains_branchResults_self _ _ _ _ _

theorem contains_settle (id : Scalar) (hc : state.stepResults.contains id = true) :
    (settle known step status result state).1.stepResults.contains id = true := by
  rcases settle_cases known step status result state with
    ⟨-, -, h⟩ | ⟨-, ⟨paused, event, -, -, h⟩ | h⟩ <;> rw [h]
  · simp [hc]
  · exact contains_branchResults _ _ _ _ _ id hc
  · exact contains_branchResults _ _ _ _ _ id hc

theorem settle_checkpointed
    (h : (settle known step status result state).2 = .stepCheckpointed) :
    (settle known step status result state).1 = state.withResults
      (branchResults known step result (recordedResult step status result) state.stepResults) := by
  rcases settle_cases known step status result state with
    ⟨-, -, he⟩ | ⟨-, ⟨paused, event, -, hne, he⟩ | he⟩
  · rw [he] at h
    cases h
  · rw [he] at h
    exact absurd h hne
  · rw [he]

end Settle

end AgenticOrg.Workflows
