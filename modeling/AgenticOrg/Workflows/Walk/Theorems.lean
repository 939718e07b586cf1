import AgenticOrg.Workflows.Branches
import AgenticOrg.Workflows.Walk

namespace AgenticOrg.Workflows

open OrderedDict VersionedStore

-- No step is taken up, skipped or settled in another way for the branch targets noted so far.
section Targets

variable (known : Scalar → Bool) (s : RunState)

@[simp] theorem keepTargets_status : (s.keepTargets known).status = s.status := rfl

end Targets

section Turn

variable (repository : Repository) (handler : Step → RunState → Except String Json)

def Turn.map (change : RunState → RunState) : Turn → Turn
  | .stuck => .stuck
  | .skipped s => .skipped (change s)
  | .checkpointed s => .checkpointed (change s)
  | .stopped s => .stopped (change s)

end Turn

section Walk

variable (repository : Repository) (handler : Step → RunState → Except String Json)
  (onward : Bool) (now : Int)

-- A driver comes to no id that the definition lacks.
theorem Driving.lookup (s : RunState) (front rest : List Scalar) (stepId : Scalar)
    (hd : Driving s front (stepId :: rest)) :
    ∃ step, (buildStepIndex s.definition.steps).get? stepId = some step := by
  obtain ⟨step, hs, rfl⟩ := mem_order _ _ hd.sorted stepId (by simp)
  rw [← Option.isSome_iff_exists, Dict.isSome_get?, contains_buildStepIndex]
  exact named_of_mem _ step hs

theorem Driving.text (s : RunState) (front rest : List Scalar) (hd : Driving s front rest)
    (htexts : TextIds s.definition.steps) (id : Scalar) (hid : id ∈ front ++ rest) : id.isText = true := by
  obtain ⟨step, hs, rfl⟩ := mem_order _ _ hd.sorted id hid
  exact htexts step hs

theorem Driving.jsonSafe (s : RunState) (front rest : List Scalar) (hd : Driving s front rest)
    (htexts : TextIds s.definition.steps) : Driving (jsonSafe s) front rest := by
  refine ⟨hd.running, hd.sorted, ?_⟩
  intro id hid
  exact contains_jsonSafe_of_text s id (hd.text s front rest htexts id (by simp [hid])) (hd.done id hid)

end Walk

section Calls

variable (repository : Repository) (handler : Step → RunState → Except String Json)

def StepResult.reported (result : StepResult) : StepStatus × Json := (result.status, result.output)

end Calls

section Course

variable (repository : Repository) (handler : Step → RunState → Except String Json) (start : RunState)

theorem Course.driving (hr : start.status = .running) (s : RunState) (rest : List Scalar)
    (h : Course handler start s rest) :
    s.definition = start.definition ∧ ∃ front, Driving s front rest := by
  induction h with
  | start order ho => exact ⟨rfl, [], hr, ho, fun id hid => absurd hid List.not_mem_nil⟩
  | passed s stepId rest h hc ih =>
      obtain ⟨hdef, front, hd⟩ := ih
      exact ⟨hdef, front ++ [stepId], hd.skip s front rest stepId hc⟩
  | skipped s stepId rest step reason h ha hc ih =>
      obtain ⟨hdef, front, hd⟩ := ih
      exact ⟨hdef, front ++ [stepId], hd.record s front rest stepId step _ ha⟩
  | settled s stepId rest step answer status result h ha hc hr hn he ih =>
      obtain ⟨hdef, front, hd⟩ := ih
      exact ⟨(settle_definition _ step status result s).trans hdef, front ++ [stepId],
        hd.settle s front rest stepId step _ status result ha he⟩

-- Where all paths are texts, so are all keys.
theorem Course.texts (hr : start.status = .running) (htexts : TextIds start.definition.steps)
    (hpaths : TextPaths start.definition.steps)
    (hkeys : ∀ key ∈ start.stepResults.keys, key.isText = true) (s : RunState) (rest : List Scalar)
    (h : Course handler start s rest) : ∀ key ∈ s.stepResults.keys, key.isText = true := by
  induction h with
  | start order ho => exact hkeys
  | passed s stepId rest h hc ih => exact ih
  | skipped s stepId rest step reason h ha hc ih =>
      intro key hk
      rcases Dict.mem_keys_insert s.stepResults step.id _ key hk with rfl | hk
      · exact htexts step (by rw [← (h.driving handler start hr s _).1]; exact ha.mem.1)
      · exact ih key hk
  | settled s stepId rest step answer status result h ha hc hr' hn he ih =>
      have hmem : step ∈ start.definition.steps := by
        rw [← (h.driving handler start hr s _).1]
        exact ha.mem.1
      rw [settle_checkpointed _ step status result s he]
      intro key hk
      rcases mem_keys_branchResults _ step result _ s.stepResults key hk with hk | rfl | hpath
      · exact ih key hk
      · exact htexts step hmem
      · exact hpaths step hmem key ((mem_paths step key).mpr hpath)

-- The states a driver is in before and after a step, and what it does in between.
section Step

variable (index : Dict Scalar Step) (s : RunState) (front rest : List Scalar) (stepId : Scalar) (step : Step)
  (hindex : index = buildStepIndex s.definition.steps) (hd : Driving s front (stepId :: rest))
  (ha : AtStep s stepId step)

include hindex hd ha

end Step

end Course

-- Where the two drivers agree under every handler, no handler can ever see a target that is no step.
section Agreed

variable (handler : Step → RunState → Except String Json) (start : RunState)

variable (hrun : start.status = .running) (htexts : TextIds start.definition.steps)
  (hpaths : TextPaths start.definition.steps) (hkeys : ∀ key ∈ start.stepResults.keys, key.isText = true)
  (index : Dict Scalar Step) (hindex : index = buildStepIndex start.definition.steps)

include hrun htexts hpaths hkeys hindex

end Agreed

-- Where every path is the id of a step, there is nothing to be seen.
section Named

end Named

end AgenticOrg.Workflows
