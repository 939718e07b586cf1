import AgenticOrg.Workflows.Branches
import AgenticOrg.Workflows.Runs.Replans

namespace AgenticOrg.Workflows

open OrderedDict VersionedStore Precedence

section Targets

-- A save takes the fallback target of an entry from the entry that was there before.
theorem target_of_insert (results : Dict Scalar StepResult) (key id : Scalar)
    (result entry : StepResult) (target : String)
    (hr : result.fallbackTarget = some target →
      ∃ old, results.get? key = some old ∧ old.fallbackTarget = some target)
    (hg : (results.insert key result).get? id = some entry) (ht : entry.fallbackTarget = some target) :
    ∃ old, results.get? id = some old ∧ old.fallbackTarget = some target := by
  rw [Dict.get?_insert] at hg
  cases hb : key == id with
  | false =>
      rw [hb] at hg
      exact ⟨entry, hg, ht⟩
  | true =>
      rw [hb] at hg
      cases hg
      rw [← Dict.get?_congr results key id hb]
      exact hr ht

theorem target_of_priorResult (s : RunState) (stepId : Scalar) (target : String)
    (h : (priorResult s stepId).fallbackTarget = some target) :
    ∃ old, s.stepResults.get? stepId = some old ∧ old.fallbackTarget = some target := by
  unfold priorResult at h
  cases hg : s.stepResults.get? stepId with
  | none =>
      rw [hg] at h
      cases h
  | some old =>
      rw [hg] at h
      exact ⟨old, rfl, h⟩

theorem decidedResult_target (s : RunState) (waiting : Scalar) (decision : Json) :
    (decidedResult s waiting decision).fallbackTarget = none := by
  unfold decidedResult
  dsimp only
  split <;> rfl

theorem branchEntry_target (known : Scalar → Bool) (step : Step) (status : StepStatus) (result : Json) :
    (branchEntry known step result (recordedResult step status result)).fallbackTarget =
      fallbackTarget step := by
  unfold branchEntry
  split <;> rfl

theorem target_of_branchResults (known : Scalar → Bool) (step : Step) (status : StepStatus)
    (result : Json) (results : Dict Scalar StepResult) (id : Scalar) (entry : StepResult)
    (target : String)
    (hg : (branchResults known step result (recordedResult step status result) results).get? id =
      some entry) (ht : entry.fallbackTarget = some target) :
    (∃ old, results.get? id = some old ∧ old.fallbackTarget = some target) ∨
      (step.id == id) = true ∧ fallbackTarget step = some target := by
  cases hb : step.id == id with
  | true =>
      rw [← Dict.get?_congr _ step.id id hb, get?_branchResults_self] at hg
      cases hg
      exact .inr ⟨rfl, by rwa [branchEntry_target] at ht⟩
  | false =>
      rcases get?_branchResults known step result _ results id hb with h | ⟨-, -, -, h⟩
      · exact .inl ⟨entry, by rw [← h, hg], ht⟩
      · rw [h] at hg
        cases hg
        cases ht

theorem target_of_settle (known : Scalar → Bool) (step : Step) (status : StepStatus) (result : Json)
    (s : RunState) (id : Scalar) (entry : StepResult) (target : String)
    (hg : (settle known step status result s).1.stepResults.get? id = some entry)
    (ht : entry.fallbackTarget = some target) :
    (∃ old, s.stepResults.get? id = some old ∧ old.fallbackTarget = some target) ∨
      (step.id == id) = true ∧ fallbackTarget step = some target := by
  rcases settle_cases known step status result s with
    ⟨-, -, h⟩ | ⟨-, ⟨paused, event, -, -, h⟩ | h⟩
  · rw [h] at hg
    cases hb : step.id == id with
    | false =>
        refine .inl ⟨entry, ?_, ht⟩
        simpa [hb] using hg
    | true =>
        have he : recordedResult step status result = entry := by simpa [hb] using hg
        subst he
        exact .inr ⟨rfl, ht⟩
  · rw [h] at hg
    exact target_of_branchResults known step status result s.stepResults id entry target hg ht
  · rw [h] at hg
    exact target_of_branchResults known step status result s.stepResults id entry target hg ht

variable {rules : Rules Engine} {s s' : RunState} {note : Note}

-- The fallback target of an entry was there before, or it is the one of the step that is recorded.
theorem Writes.target (hw : Writes rules s s' note) (id : Scalar) (entry : StepResult)
    (target : String) (hg : s'.stepResults.get? id = some entry)
    (ht : entry.fallbackTarget = some target) :
    (∃ old, s.stepResults.get? id = some old ∧ old.fallbackTarget = some target) ∨
      ∃ stepId step, AtStep s stepId step ∧ (step.id == id) = true ∧
        fallbackTarget step = some target := by
  have hinsert : ∀ key result, result.fallbackTarget = none →
      (s.stepResults.insert key result).get? id = some entry →
      ∃ old, s.stepResults.get? id = some old ∧ old.fallbackTarget = some target := by
    intro key result hr hg
    refine target_of_insert _ key id result entry target ?_ hg ht
    rw [hr]
    intro h
    cases h
  cases hw with
  | runTimedOut => exact .inl ⟨entry, hg, ht⟩
  | skipped stepId step reason => exact .inl (hinsert step.id (skippedResult reason) rfl hg)
  | raised stepId step message => exact .inl (hinsert step.id (failedResult message) rfl hg)
  | settled stepId step known answer status result ha =>
      rcases target_of_settle known step status result s id entry target hg ht with h | h
      · exact .inl h
      · exact .inr ⟨stepId, step, ha, h⟩
  | completed => exact .inl ⟨entry, hg, ht⟩
  | replanned stepId step message => exact .inl (hinsert step.id (replannedResult message) rfl hg)
  | hitlRejected decision => exact .inl (hinsert s.waiting (rejectedResult decision) rfl hg)
  | hitlResumed decision =>
      exact .inl (hinsert s.waiting _ (decidedResult_target s s.waiting decision) hg)
  | waitResumed output =>
      exact .inl (hinsert s.waiting { output := output, status := .completed } rfl hg)
  | eventTimedOut stepId =>
      exact .inl (hinsert stepId { output := .obj [], status := .timedOut } rfl hg)
  | cancelled => exact .inl ⟨entry, hg, ht⟩
  | waitTask stepId => exact .inl (hinsert stepId resumedResult rfl hg)
  | eventTask stepId => exact .inl (hinsert stepId timedOutResult rfl hg)
  | hitlEscalated stepId output =>
      exact .inl (target_of_insert _ stepId id { priorResult s stepId with output := output } entry target
        (target_of_priorResult s stepId target) hg ht)
  | hitlTask stepId =>
      exact .inl (target_of_insert _ stepId id (hitlTimedOutResult s stepId) entry target
        (target_of_priorResult s stepId target) hg ht)

-- A skip is saved where the check of the step says so.
theorem Writes.skips (hw : Writes rules s s' note) (reason : String)
    (he : note.event = .stepSkipped reason) :
    ∃ stepId step, AtStep s stepId step ∧ checkDependencies step s = some reason := by
  cases hw with
  | skipped stepId step found ha hc =>
      cases he
      exact ⟨stepId, step, ha, hc⟩
  | settled stepId step known answer status result ha =>
      have hevent : (settle known step status result s).2 = .stepSkipped reason := he
      rcases settle_event known step status result s with
        ⟨_, h⟩ | h | ⟨_, h⟩ | ⟨_, h⟩ | h <;> rw [h] at hevent <;> cases hevent
  | _ => cases he

theorem Writes.replanCount (hw : Writes rules s s' note) :
    s'.replanCount = s.replanCount ∨ note.actor = .replan := by
  cases hw with
  | settled stepId step known answer status result =>
      rcases settle_cases known step status result s with
        ⟨-, -, h⟩ | ⟨-, ⟨paused, event, -, -, h⟩ | h⟩ <;> rw [h] <;> exact .inl rfl
  | replanned => exact .inr rfl
  | _ => exact .inl rfl

end Targets

section Reasons

-- The reasons for a skip that say that something before the step has no result.
def NotExecuted (reason : String) : Prop :=
  ∃ name, reason = "Dependency '" ++ name ++ "' has not been executed" ∨
    reason = "Fallback source '" ++ name ++ "' has not been executed"

theorem getLast?_append_text (front back : String) (c : Char) (h : back.toList.getLast? = some c) :
    (front ++ back).toList.getLast? = some c := by
  rw [String.toList_append, List.getLast?_append, h]
  rfl

theorem not_notExecuted_of_last (reason : String) (h : reason.toList.getLast? ≠ some 'd') :
    ¬ NotExecuted reason := by
  rintro ⟨name, rfl | rfl⟩
  · exact h (getLast?_append_text _ _ _ (by decide))
  · exact h (getLast?_append_text _ _ _ (by decide))

theorem not_notExecuted_of_first (reason : String) (hd : reason.toList.head? ≠ some 'D')
    (hf : reason.toList.head? ≠ some 'F') : ¬ NotExecuted reason := by
  rintro ⟨name, rfl | rfl⟩
  · exact hd (by simp)
  · exact hf (by simp)

theorem checkSources_executed (sources : List Scalar) (results : Dict Scalar StepResult)
    (reason : String) (hs : ∀ source ∈ sources, results.contains source = true)
    (h : checkSources sources results = some reason) : ¬ NotExecuted reason := by
  have hnone : sources.find? (fun source => !results.contains source) = none := by
    rw [List.find?_eq_none]
    intro source hm
    simp [hs source hm]
  unfold checkSources at h
  rw [hnone] at h
  dsimp only at h
  split at h
  · cases h
  · split at h
    · cases h
    · cases h
      exact not_notExecuted_of_first _ (by decide) (by decide)

theorem checkDependency_executed (results : Dict Scalar StepResult) (dep : Scalar) (reason : String)
    (hc : results.contains dep = true) (h : checkDependency results dep = some reason) :
    ¬ NotExecuted reason := by
  obtain ⟨entry, hg⟩ := Option.isSome_iff_exists.mp ((Dict.isSome_get? results dep).trans hc)
  unfold checkDependency at h
  rw [hg] at h
  dsimp only at h
  split at h
  · cases h
  · cases h
    exact not_notExecuted_of_last _ (by decide)
  · cases h
    refine not_notExecuted_of_last _ ?_
    rw [getLast?_append_text _ ")" ')' (by decide)]
    decide

-- Where everything before the step has a result, no skip says otherwise.
theorem checkDependencies_executed (step : Step) (s : RunState) (reason : String)
    (hs : ∀ source ∈ sourcesOf step s, s.stepResults.contains source = true)
    (hd : ∀ dep ∈ step.deps, s.stepResults.contains dep = true)
    (h : checkDependencies step s = some reason) : ¬ NotExecuted reason := by
  unfold checkDependencies at h
  dsimp only at h
  cases hc : checkSources (sourcesOf step s) s.stepResults with
  | some found =>
      rw [hc] at h
      cases h
      exact checkSources_executed _ _ _ hs hc
  | none =>
      rw [hc] at h
      obtain ⟨dep, hm, hf⟩ := List.exists_of_findSome?_eq_some h
      exact checkDependency_executed _ dep _ (hd dep (List.mem_filter.mp hm).1) hf

end Reasons

section Sources

theorem mem_sourcesOf_of_fallback (step : Step) (s : RunState) (source : Scalar)
    (h : source ∈ fallbackSources step.id s.definition.steps) : source ∈ sourcesOf step s := by
  unfold sourcesOf
  generalize fallbackSources step.id s.definition.steps = found at h ⊢
  generalize step.deps = deps
  induction deps generalizing found with
  | nil => exact h
  | cons dep rest ih =>
      rw [List.foldl_cons]
      apply ih
      split
      · exact List.mem_append_left _ h
      · exact h

theorem checkDependencies_failed (step : Step) (s : RunState) (h : checkDependencies step s = none)
    (hne : sourcesOf step s ≠ []) :
    ∃ source ∈ sourcesOf step s, statusOf s.stepResults source = some .failed := by
  unfold checkDependencies at h
  dsimp only at h
  cases hs : checkSources (sourcesOf step s) s.stepResults with
  | some reason =>
      rw [hs] at h
      cases h
  | none =>
      unfold checkSources at hs
      split at hs
      · cases hs
      · split at hs
        · rename_i hany
          simpa using hany
        · rename_i hempty
          simp [hne] at hs

end Sources

section Planned

-- What a run keeps as long as it is not replanned: its definition, and where the fallback
-- targets in its results come from.
structure AsDefined (definition : Definition) (s : RunState) : Prop where
  same : s.definition = definition
  targets : ∀ id entry target, s.stepResults.get? id = some entry →
    entry.fallbackTarget = some target →
      ∃ step ∈ definition.steps, (step.id == id) = true ∧ fallbackTarget step = some target

variable (definition : Definition)

theorem AsDefined.jsonSafe (htext : TextIds definition.steps) (s : RunState)
    (h : AsDefined definition s) : AsDefined definition (jsonSafe s) := by
  refine ⟨h.same, ?_⟩
  intro id entry target hg ht
  obtain ⟨found, hf, hb, rfl⟩ := Dict.mem_of_get?_ofList _ id entry hg
  obtain ⟨original, ho, rfl⟩ := List.mem_map.mp hf
  obtain ⟨step, hs, hid, htarget⟩ := h.targets original.1 original.2 target
    (Dict.get?_of_mem s.stepResults original ho) ht
  -- Only a text can be the id of a step, and a text is stored as it is.
  have hkey : original.1.jsonKey = original.1 :=
    Scalar.jsonKey_of_isText _ (Scalar.isText_of_beq _ _ (BEq.symm hid) (htext step hs))
  rw [hkey] at hb
  exact ⟨step, hs, BEq.trans hid hb, htarget⟩

theorem asDefined_stored (repository : Repository) (htext : TextIds definition.steps) :
    Stored repository (Rules.free Engine) fun s => 0 < s.replanCount ∨ AsDefined definition s where
  writes s s' note h hw := by
    rcases Writes.definition hw with ⟨hd, hc⟩ | ⟨_, _, _, _, _, _, _, -, -, -, rfl⟩
    · rw [hc]
      rcases h with h | h
      · exact .inl h
      · refine .inr ⟨by rw [hd, h.same], ?_⟩
        intro id entry target hg ht
        rcases Writes.target hw id entry target hg ht with ⟨old, hold, htarget⟩ |
          ⟨stepId, step, ha, hid, htarget⟩
        · exact h.targets id old target hold htarget
        · exact ⟨step, by rw [← h.same]; exact ha.mem.1, hid, htarget⟩
    · exact .inl (Nat.succ_pos _)
  encode s h := by
    rcases h with h | h
    · exact .inl h
    · exact .inr (h.jsonSafe definition htext s)

theorem AsDefined.fallsTo (s : RunState) (h : AsDefined definition s) (step : Step) (source : Scalar)
    (hs : source ∈ sourcesOf step s) : FallsTo definition.steps source step.id := by
  rcases mem_sourcesOf step s source hs with hm | ⟨-, hr⟩
  · rw [h.same] at hm
    obtain ⟨found, hf, rfl, ht⟩ := mem_fallbackSources step.id source definition.steps hm
    exact ⟨found, hf, BEq.rfl, ht⟩
  · obtain ⟨target, ht, hb⟩ := (Option.any_eq_true _ _).mp hr
    obtain ⟨entry, hg, he⟩ := Option.bind_eq_some_iff.mp ht
    obtain ⟨found, hf, hfb, hft⟩ := h.targets source entry target hg he
    exact ⟨found, hf, hfb, by rw [hft]; exact hb⟩

end Planned

section Ready

-- A definition whose steps wait for steps only, and never for themselves around any corner.
structure Ready (definition : Definition) : Prop where
  accepted : Accepted definition.steps
  texts : TextIds definition.steps
  acyclic : Acyclic (precedenceEdges definition.steps)
  resolved : ∀ step ∈ definition.steps, ∀ dep ∈ step.deps, named definition.steps dep = true

variable (definition : Definition) (hd : Ready definition) (s : RunState) (h : AsDefined definition s)
  (stepId : Scalar) (step : Step) (ha : AtStep s stepId step)

include hd h ha

theorem Ready.edge_of_fallsTo (source : Scalar) (hf : FallsTo definition.steps source step.id) :
    Edge (sortEdges definition.steps) source.canon step.id.canon := by
  obtain ⟨found, hm, hb, ht⟩ := hf
  obtain ⟨target, htarget, hid⟩ := (Option.any_eq_true _ _).mp ht
  have hcanon := (Scalar.beq_iff _ _).mp hid
  have hstep : named definition.steps (.str target) = true := by
    rw [named_iff, hcanon, ← named_iff, ← h.same]
    exact named_of_mem _ step ha.mem.1
  apply edge_sortEdges_of_acyclic _ hd.acyclic
  exact (mem_precedenceEdges _ _ _).mpr
    (.inr ⟨found, hm, target, htarget, hstep, ((Scalar.beq_iff _ _).mp hb).symm, hcanon.symm⟩)

theorem Ready.contains_of_edge (earlier : Scalar)
    (he : Edge (sortEdges definition.steps) earlier.canon step.id.canon) :
    s.stepResults.contains earlier = true := by
  refine ha.contains_of_edge s stepId step ?_ earlier ?_
  · rw [h.same]
    exact hd.accepted.nodup
  · rwa [h.same]

theorem Ready.dep_contains (dep : Scalar) (hm : dep ∈ step.deps) :
    s.stepResults.contains dep = true := by
  have hstep : step ∈ definition.steps := by
    rw [← h.same]
    exact ha.mem.1
  exact hd.contains_of_edge definition s h stepId step ha dep
    ((mem_sortEdges _ _ _).mpr (.inl ⟨step, hstep, dep, hm, hd.resolved step hstep dep hm, rfl, rfl⟩))

theorem Ready.source_contains (source : Scalar) (hf : FallsTo definition.steps source step.id) :
    s.stepResults.contains source = true :=
  hd.contains_of_edge definition s h stepId step ha source
    (hd.edge_of_fallsTo definition s h stepId step ha source hf)

theorem Ready.mem_sourcesOf (source : Scalar) (hf : FallsTo definition.steps source step.id) :
    ∃ found ∈ sourcesOf step s, (found == source) = true := by
  have hedge := hd.edge_of_fallsTo definition s h stepId step ha source hf
  have hne : source.canon ≠ step.id.canon := by
    intro he
    rw [he] at hedge
    exact hd.acyclic _ (.single (sortEdges_subset _ _ hedge))
  obtain ⟨found, hm, hb, ht⟩ := hf
  refine ⟨found.id, mem_sourcesOf_of_fallback step s found.id ?_, hb⟩
  have hother : (found.id == step.id) = false := by
    rw [Scalar.beq_eq_false_iff, (Scalar.beq_iff _ _).mp hb]
    exact hne
  rw [h.same]
  exact List.mem_map.mpr ⟨found, List.mem_filter.mpr ⟨hm, by simp [hother, ht]⟩, rfl⟩

theorem Ready.not_notExecuted (reason : String) (hc : checkDependencies step s = some reason) :
    ¬ NotExecuted reason := by
  refine checkDependencies_executed step s reason ?_ ?_ hc
  · intro source hm
    exact hd.source_contains definition s h stepId step ha source (h.fallsTo definition s step source hm)
  · exact hd.dep_contains definition s h stepId step ha

-- What a step waits for when it is run: its dependencies, and the steps it stands in for.
structure Cleared (definition : Definition) (s : RunState) (step : Step) : Prop where
  deps : ∀ dep ∈ step.deps, ¬ FallsTo definition.steps dep step.id → Done s dep
  sources : ∀ source, FallsTo definition.steps source step.id → s.stepResults.contains source = true
  failed : ∀ source, FallsTo definition.steps source step.id →
    ∃ found, FallsTo definition.steps found step.id ∧ statusOf s.stepResults found = some .failed

theorem Ready.cleared (hc : checkDependencies step s = none) : Cleared definition s step := by
  refine ⟨?_, hd.source_contains definition s h stepId step ha, ?_⟩
  · intro dep hm hf
    rcases (checkDependencies_none step s hc).2 dep hm with hany | hdone
    · obtain ⟨source, hs, hb⟩ := List.any_eq_true.mp hany
      obtain ⟨found, hfound, hid, ht⟩ := h.fallsTo definition s step source hs
      exact absurd ⟨found, hfound, BEq.trans hid hb, ht⟩ hf
    · exact hdone
  · intro source hf
    obtain ⟨found, hm, -⟩ := hd.mem_sourcesOf definition s h stepId step ha source hf
    obtain ⟨other, ho, hs⟩ := checkDependencies_failed step s hc (List.ne_nil_of_mem hm)
    exact ⟨other, h.fallsTo definition s step other ho, hs⟩

end Ready

section Runs

-- A row that carries a replan has a row with the replan itself at or below it.
theorem replanned_rows (repository : Repository) (runId : String) (info : RunInfo)
    (definition : Definition) (now : Int) (world : World Engine)
    (hr : Run repository runId (Rules.free Engine) (started (initialState info definition now)) world)
    (row : Row Engine) (hm : row ∈ world.store.history) (hc : 0 < row.state.replanCount) :
    ∃ found ∈ world.store.history, found.note.actor = .replan := by
  have htrue : Stored repository (Rules.free Engine) fun _ => True :=
    ⟨fun _ _ _ _ _ => trivial, fun _ _ => trivial⟩
  refine reaches_history _ _ (Rules.free Engine) (engineSpec _) (fun _ => True)
    (fun history => ∀ row ∈ history, 0 < row.state.replanCount →
      ∃ found ∈ history, found.note.actor = .replan) ?_ (keeps_body repository runId _) htrue _ world
    (started_inv repository _ _ info definition now trivial) ?_ hr row hm hc
  · rintro top below rest ⟨-, s, s', -, hw, -, hbelow, htop⟩ hall found hf hcount
    rcases List.mem_cons.mp hf with rfl | hf
    · rcases Writes.replanCount hw with hsame | hactor
      · have hold : 0 < below.state.replanCount := by
          rw [htop] at hcount
          rw [hbelow]
          exact hsame ▸ hcount
        obtain ⟨other, ho, ha⟩ := hall below (by simp) hold
        exact ⟨other, List.mem_cons_of_mem _ ho, ha⟩
      · exact ⟨found, by simp, hactor⟩
    · obtain ⟨other, ho, ha⟩ := hall found hf hcount
      exact ⟨other, List.mem_cons_of_mem _ ho, ha⟩
  · intro found hf hcount
    simp only [started, World.init, List.mem_singleton] at hf
    rw [hf] at hcount
    cases hcount

-- A skip for something that was left out is found in replanned runs only.
theorem notExecuted_rows (repository : Repository) (runId : String) (info : RunInfo)
    (definition : Definition) (now : Int) (hready : Ready definition) (world : World Engine)
    (hr : Run repository runId (Rules.free Engine) (started (initialState info definition now)) world)
    (row : Row Engine) (hm : row ∈ world.store.history) (reason : String)
    (he : row.note.event = .stepSkipped reason) (hreason : NotExecuted reason) :
    ∃ found ∈ world.store.history, 0 < found.state.replanCount := by
  have hstarted : AsDefined definition (initialState info definition now) := by
    refine ⟨rfl, ?_⟩
    intro id entry target hg
    cases hg
  refine reaches_history _ _ (Rules.free Engine) (engineSpec _)
    (fun s => 0 < s.replanCount ∨ AsDefined definition s)
    (fun history => ∀ row ∈ history, ∀ reason, row.note.event = .stepSkipped reason →
      NotExecuted reason → ∃ found ∈ history, 0 < found.state.replanCount) ?_
    (keeps_body repository runId _) (asDefined_stored definition repository hready.texts) _ world
    (started_inv repository _ _ info definition now (.inr hstarted)) ?_ hr row hm reason he hreason
  · rintro top below rest ⟨-, s, s', hs, hw, -, hbelow, -⟩ hall found hf reason he hreason
    rcases List.mem_cons.mp hf with rfl | hf
    · rcases hs with hs | hs
      · exact ⟨below, by simp, by rw [hbelow]; exact hs⟩
      · obtain ⟨stepId, step, ha, hc⟩ := Writes.skips hw reason he
        exact absurd hreason (hready.not_notExecuted definition s hs stepId step ha reason hc)
    · obtain ⟨other, ho, hcount⟩ := hall found hf reason he hreason
      exact ⟨other, List.mem_cons_of_mem _ ho, hcount⟩
  · intro found hf reason he
    simp only [started, World.init, List.mem_singleton] at hf
    rw [hf] at he
    cases he

-- Without replans a handler is asked for a step only when what the step waits for has
-- settled the way it needs, and no step is skipped because something was left out.
theorem dependencies_settled (repository : Repository) (runId : String) (info : RunInfo)
    (raw : RawDefinition) (now : Int) (state : RunState) (hstart : startRun info raw now = .ok state)
    (htexts : TextIds state.definition.steps)
    (hacyclic : Acyclic (precedenceEdges state.definition.steps))
    (hdeps : ∀ step ∈ state.definition.steps, ∀ dep ∈ step.deps,
      named state.definition.steps dep = true)
    (world : World Engine) (hr : Run repository runId (Rules.free Engine) (started state) world)
    (hplain : ∀ row ∈ world.store.history, row.note.actor ≠ .replan) :
    (∀ thread ∈ world.threads, ∀ step seen next, thread.prog = .ask (.executeStep step seen) next →
      Cleared state.definition seen step) ∧
    ∀ row ∈ world.store.history, ∀ reason, row.note.event = .stepSkipped reason →
      ¬ NotExecuted reason := by
  obtain ⟨definition, hparse, rfl⟩ := startRun_ok info raw now state hstart
  have hready : Ready definition := ⟨((parse_ok_iff raw definition).mp hparse).2, htexts, hacyclic, hdeps⟩
  have hstarted : AsDefined definition (initialState info definition now) := by
    refine ⟨rfl, ?_⟩
    intro id entry target hg
    cases hg
  have hinv := run_inv repository runId _ _ (asDefined_stored definition repository htexts) _ world
    (started_inv repository _ _ info definition now (.inr hstarted)) hr
  have hnone : ∀ row ∈ world.store.history, row.state.replanCount = 0 := by
    intro row hm
    by_contra hc
    obtain ⟨found, hf, ha⟩ := replanned_rows repository runId info definition now world hr row hm
      (Nat.pos_of_ne_zero hc)
    exact hplain found hf ha
  refine ⟨?_, ?_⟩
  · intro thread hm step seen next hprog
    have hthread := hinv.threads thread hm
    have hasks : Asks (thread.held.map Prod.snd) (.executeStep step seen) := by
      have hrespects := hthread.respects
      rw [hprog] at hrespects
      exact hrespects.1
    obtain ⟨hheld, hc, stepId, ha⟩ := hasks
    obtain ⟨⟨v, s⟩, hsome, rfl⟩ := Option.map_eq_some_iff.mp hheld
    obtain ⟨hs, row, hrow, -, hstate⟩ := hthread.held v s hsome
    have hcount := hnone row hrow
    rw [hstate] at hcount
    rcases hs with hs | hs
    · exact absurd hcount (Nat.pos_iff_ne_zero.mp hs)
    · exact hready.cleared definition s hs stepId step ha hc
  · intro row hm reason he hreason
    obtain ⟨found, hf, hcount⟩ := notExecuted_rows repository runId info definition now hready world hr
      row hm reason he hreason
    exact absurd (hnone found hf) (Nat.pos_iff_ne_zero.mp hcount)

def mirrored : Definition :=
  { steps := [{ id := .str "fetch", onFailure := "fallback(mirror)" }, { id := .str "mirror" },
      { id := .str "report", dependsOn := some [.str "mirror"] }] }

def mirroredRun : RunState := initialState { id := "wfr_1" } mirrored 0

def refusedResult : Json := .obj [("status", .str "failed")]

-- The mirror is asked for after the fetch has failed.
theorem dependencies_settled_mirror :
    startRun { id := "wfr_1" } mirrored.raw 0 = .ok mirroredRun ∧
      ∃ world seen next, Run .inMemory "wfr_1" (Rules.free Engine) (started mirroredRun) world ∧
        world.threads.map Thread.prog = [.ask (.executeStep { id := .str "mirror" } seen) next] ∧
        FallsTo mirrored.steps (.str "fetch") (.str "mirror") ∧
        Cleared mirrored seen { id := .str "mirror" } := by
  have hr := midway_reached .inMemory "wfr_1" (Rules.free Engine) (fun _ => true)
    (answering refusedResult) (fun _ => trivial) (fun _ _ _ => trivial) mirroredRun [.execute]
    (List.replicate 7 0)
  obtain ⟨thread, seen, next, hthreads, hprog⟩ : ∃ (thread : Thread Engine) (seen : RunState) (next : _),
      (midway .inMemory "wfr_1" (fun _ => true) (answering refusedResult) mirroredRun [.execute]
        (List.replicate 7 0)).threads = [thread] ∧
      thread.prog = .ask (.executeStep { id := .str "mirror" } seen) next := ⟨_, _, _, rfl, rfl⟩
  have hplain : ∀ row ∈ (midway .inMemory "wfr_1" (fun _ => true) (answering refusedResult) mirroredRun
      [.execute] (List.replicate 7 0)).store.history, row.note.actor ≠ .replan := by
    decide +kernel
  have hedges : sortEdges mirrored.steps = precedenceEdges mirrored.steps := rfl
  have hacyclic : Acyclic (precedenceEdges mirrored.steps) := by
    rw [← hedges]
    exact (topologicalSort_ok_iff mirrored.steps (by decide) (by decide)).mp ⟨_, rfl⟩
  have htexts : TextIds mirrored.steps := by
    unfold TextIds
    decide
  refine ⟨rfl, _, seen, next, hr, by rw [hthreads, List.map_singleton, hprog], ?_, ?_⟩
  · exact ⟨{ id := .str "fetch", onFailure := "fallback(mirror)" }, by simp [mirrored], rfl, rfl⟩
  · exact (dependencies_settled .inMemory "wfr_1" { id := "wfr_1" } mirrored.raw 0 mirroredRun rfl
      htexts hacyclic (by decide) _ hr hplain).1 thread (by rw [hthreads]; simp) _ seen next hprog

end Runs

end AgenticOrg.Workflows
