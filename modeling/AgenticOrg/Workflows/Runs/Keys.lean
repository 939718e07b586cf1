import AgenticOrg.Workflows.Runs

namespace AgenticOrg.Workflows

open OrderedDict VersionedStore

-- The paths of a condition step that the branch bookkeeping can write to.
def Step.paths (step : Step) : List Scalar :=
  if step.type = some .condition then (pathOf step.truePath).toList ++ (pathOf step.falsePath).toList
  else []

theorem mem_paths (step : Step) (path : Scalar) :
    path ∈ step.paths ↔ step.type = some .condition ∧
      (pathOf step.truePath = some path ∨ pathOf step.falsePath = some path) := by
  unfold Step.paths
  split
  · rename_i htype
    simp [htype]
  · rename_i htype
    simp [htype]

theorem named_congr (steps : List Step) (a b : Scalar) (h : (a == b) = true) :
    named steps a = named steps b := by
  unfold named
  congr 1
  funext step
  exact BEq.congr_right h

section Closed

-- Ids that are texts, and paths of condition steps that lead to steps.
def TextIds (steps : List Step) : Prop := ∀ step ∈ steps, step.id.isText = true

def PathsNamed (conditions steps : List Step) : Prop :=
  ∀ step ∈ conditions, ∀ path ∈ step.paths, named steps path = true

def ClosedReply (s : RunState) (failed : Scalar) (newSteps : List Step) : Prop :=
  TextIds newSteps ∧ PathsNamed newSteps (replannedSteps s failed newSteps)

-- Replans keep to such steps, and the queue runs its tasks for steps of the definition.
def closedRules : Rules Engine where
  load
    | .resumeWorkflowWait stepId, s =>
        s.waiting.truthy = false → named s.definition.steps stepId = true
    | .timeoutWorkflowEvent stepId, _ => stepId.isText = true
    | _, _ => True
  answer := RepliesFit ClosedReply

-- Every result belongs to a step of the definition, and the counts are the counts.
structure Counted (s : RunState) : Prop where
  keys : ∀ key ∈ s.stepResults.keys, named s.definition.steps key = true
  completed : s.stepsCompleted = s.stepResults.size
  total : s.stepsTotal = s.definition.steps.length

structure Closed (s : RunState) : Prop extends Counted s where
  texts : TextIds s.definition.steps
  paths : ∀ step ∈ s.definition.steps, s.stepResults.contains step.id = false →
    ∀ path ∈ step.paths, named s.definition.steps path = true
  waiting : ∀ id, s.waitingStepId = some id → s.stepResults.contains id = true
  paused : s.status.isPaused = true → s.waitingStepId ≠ none

theorem Counted.completed_le (s : RunState) (h : Counted s) : s.stepsCompleted ≤ s.stepsTotal := by
  have hle := Dict.size_le_of_keys_matched s.stepResults (stepIds s.definition.steps) (by
    intro key hk
    obtain ⟨step, hs, hb⟩ := List.any_eq_true.mp (h.keys key hk)
    exact ⟨step.id, List.mem_map.mpr ⟨step, hs, rfl⟩, BEq.symm hb⟩)
  rw [h.completed, h.total]
  simpa [stepIds] using hle

theorem named_of_contains (s : RunState) (h : Counted s) (id : Scalar)
    (hc : s.stepResults.contains id = true) : named s.definition.steps id = true := by
  obtain ⟨key, hk, hb⟩ := (Dict.contains_iff s.stepResults id).mp hc
  rw [← named_congr _ key id hb]
  exact h.keys key hk

theorem Closed.keys_text (s : RunState) (h : Closed s) : ∀ key ∈ s.stepResults.keys, key.isText = true := by
  intro key hk
  obtain ⟨step, hs, hb⟩ := List.any_eq_true.mp (h.keys key hk)
  exact Scalar.isText_of_beq key step.id (BEq.symm hb) (h.texts step hs)

theorem Closed.jsonSafe (s : RunState) (h : Closed s) : jsonSafe s = s :=
  jsonSafe_of_text s h.keys_text

-- More results for steps of the same definition.
theorem Closed.grow (s : RunState) (h : Closed s) (results : Dict Scalar StepResult)
    (hkeys : ∀ key ∈ results.keys, named s.definition.steps key = true)
    (hgrow : ∀ id, s.stepResults.contains id = true → results.contains id = true)
    (s' : RunState) (hr : s'.stepResults = results) (hd : s'.definition = s.definition)
    (hc : s'.stepsCompleted = results.size) (ht : s'.stepsTotal = s.stepsTotal)
    (hw : ∀ id, s'.waitingStepId = some id → results.contains id = true)
    (hp : s'.status.isPaused = true → s'.waitingStepId ≠ none) : Closed s' := by
  refine ⟨⟨?_, by rw [hc, hr], by rw [ht, h.total, hd]⟩, by rw [hd]; exact h.texts, ?_,
    by rw [hr]; exact hw, hp⟩
  · rw [hr, hd]
    exact hkeys
  · rw [hd, hr]
    intro step hs hfresh
    apply h.paths step hs
    cases hcs : s.stepResults.contains step.id with
    | false => rfl
    | true =>
        rw [hgrow step.id hcs] at hfresh
        cases hfresh

theorem Closed.keys_insert (s : RunState) (h : Closed s) (id : Scalar) (result : StepResult)
    (hn : named s.definition.steps id = true) :
    ∀ key ∈ (s.stepResults.insert id result).keys, named s.definition.steps key = true := by
  intro key hk
  rcases Dict.mem_keys_insert s.stepResults id result key hk with rfl | hk
  · exact hn
  · exact h.keys key hk

-- Out of a wait, with a result for a step of the definition.
theorem Closed.release (s : RunState) (h : Closed s) (id : Scalar) (result : StepResult)
    (hn : named s.definition.steps id = true) (s' : RunState)
    (hr : s'.stepResults = s.stepResults.insert id result) (hd : s'.definition = s.definition)
    (hc : s'.stepsCompleted = (s.stepResults.insert id result).size)
    (ht : s'.stepsTotal = s.stepsTotal) (hw : s'.waitingStepId = none)
    (hp : s'.status.isPaused = false) : Closed s' := by
  refine h.grow s _ (h.keys_insert s id result hn) ?_ s' hr hd hc ht ?_ ?_
  · intro other ho
    simp [ho]
  · intro other ho
    rw [hw] at ho
    cases ho
  · intro hpaused
    rw [hp] at hpaused
    cases hpaused

theorem AtStep.named (s : RunState) (stepId : Scalar) (step : Step) (ha : AtStep s stepId step) :
    named s.definition.steps step.id = true :=
  named_of_mem s.definition.steps step ha.mem.1

theorem AtStep.fresh_self (s : RunState) (stepId : Scalar) (step : Step) (ha : AtStep s stepId step) :
    s.stepResults.contains step.id = false := by
  rw [Dict.contains_congr _ step.id stepId ha.mem.2]
  exact ha.fresh

theorem contains_of_waiting (s : RunState) (h : Closed s) (id : Scalar)
    (hp : s.status.isPaused = true) (hw : (s.waiting == id) = true) :
    s.stepResults.contains id = true := by
  obtain ⟨waiting, hwait, hb⟩ := exists_waiting s id hw (h.paused hp)
  rw [← Dict.contains_congr _ waiting id hb]
  exact h.waiting waiting hwait

theorem Closed.recorded (s : RunState) (h : Closed s) (stepId : Scalar) (step : Step)
    (ha : AtStep s stepId step) (result : StepResult) (status : RunStatus)
    (hp : status.isPaused = false) : Closed { s.record step.id result with status := status } := by
  refine h.grow s _ (h.keys_insert s step.id result ha.named) ?_ _ rfl rfl rfl rfl ?_ ?_
  · intro id hid
    simp [hid]
  · intro id hid
    simp [h.waiting id hid]
  · intro hpaused
    rw [hp] at hpaused
    cases hpaused

theorem Closed.settled (s : RunState) (h : Closed s) (stepId : Scalar) (step : Step)
    (ha : AtStep s stepId step) (known : Scalar → Bool) (status : StepStatus) (result : Json) :
    Closed (settle known step status result s).1 := by
  have hkeys : ∀ key ∈ (branchResults known step result (recordedResult step status result)
      s.stepResults).keys, named s.definition.steps key = true := by
    intro key hk
    rcases mem_keys_branchResults known step result _ s.stepResults key hk with hk | rfl | hpath
    · exact h.keys key hk
    · exact ha.named
    · exact h.paths step ha.mem.1 ha.fresh_self key ((mem_paths step key).mpr hpath)
  have hgrow := contains_branchResults known step result (recordedResult step status result)
    s.stepResults
  have hself := contains_branchResults_self known step result (recordedResult step status result)
    s.stepResults
  rcases settle_cases known step status result s with
    ⟨-, -, he⟩ | ⟨-, ⟨paused, event, hp, -, he⟩ | he⟩
  · rw [he]
    exact h.recorded s stepId step ha _ .failed rfl
  · rw [he]
    refine h.grow s _ hkeys hgrow _ rfl rfl rfl rfl ?_ (fun _ => by simp)
    intro id hid
    cases hid
    exact hself
  · rw [he]
    exact h.grow s _ hkeys hgrow _ rfl rfl rfl rfl (fun id hid => hgrow id (h.waiting id hid)) h.paused

theorem contains_of_mem_keys (results : Dict Scalar StepResult) (key : Scalar)
    (hk : key ∈ results.keys) : results.contains key = true :=
  (Dict.contains_iff results key).mpr ⟨key, hk, BEq.rfl⟩

-- Whatever has a result stays in the definition, and so does the step that failed.
theorem named_replannedSteps (s : RunState) (h : Counted s) (failed : Scalar) (newSteps : List Step)
    (hf : named s.definition.steps failed = true) (result : StepResult) (key : Scalar)
    (hk : key ∈ (s.stepResults.insert failed result).keys) :
    named (replannedSteps s failed newSteps) key = true := by
  have hkept : ∀ id, named s.definition.steps id = true →
      (s.stepResults.contains id = true ∨ (failed == id) = true) →
      named (replannedSteps s failed newSteps) id = true := by
    intro id hn hid
    obtain ⟨step, hs, hb⟩ := List.any_eq_true.mp hn
    refine List.any_eq_true.mpr ⟨step, List.mem_append_left _ (List.mem_filter.mpr ⟨hs, ?_⟩), hb⟩
    rw [Bool.or_eq_true]
    rcases hid with hc | he
    · exact .inl (by rw [Dict.contains_congr _ step.id id hb, hc])
    · exact .inr (BEq.trans he (BEq.symm hb))
  rcases Dict.mem_keys_insert s.stepResults failed _ key hk with rfl | hk
  · exact hkept key hf (.inr BEq.rfl)
  · exact hkept key (h.keys key hk) (.inl (contains_of_mem_keys s.stepResults key hk))

theorem mem_replannedSteps (s : RunState) (failed : Scalar) (newSteps : List Step) (step : Step)
    (hs : step ∈ replannedSteps s failed newSteps) :
    (step ∈ s.definition.steps ∧
      (s.stepResults.contains step.id = true ∨ (failed == step.id) = true)) ∨
    ∃ new ∈ newSteps, step = { new with replanned := true } := by
  rcases List.mem_append.mp hs with hs | hs
  · obtain ⟨hm, hc⟩ := List.mem_filter.mp hs
    exact .inl ⟨hm, by simpa using hc⟩
  · obtain ⟨new, hn, rfl⟩ := List.mem_map.mp hs
    exact .inr ⟨new, hn, rfl⟩

theorem Closed.replanned (s : RunState) (h : Closed s) (stepId : Scalar) (step : Step)
    (ha : AtStep s stepId step) (message : String) (newSteps : List Step) (now : Int)
    (ht : TextIds newSteps) (hp : PathsNamed newSteps (replannedSteps s step.id newSteps)) :
    Closed (replannedState s step.id message newSteps now) := by
  refine ⟨⟨?_, rfl, rfl⟩, ?_, ?_, ?_, ?_⟩
  · exact named_replannedSteps s h.toCounted step.id newSteps ha.named _
  · intro found hfound
    rcases mem_replannedSteps s step.id newSteps found hfound with ⟨hm, -⟩ | ⟨new, hn, rfl⟩
    · exact h.texts found hm
    · exact ht new hn
  · intro found hfound hfresh
    rcases mem_replannedSteps s step.id newSteps found hfound with ⟨-, hc⟩ | ⟨new, hn, rfl⟩
    · have hin : (replannedState s step.id message newSteps now).stepResults.contains found.id = true := by
        show (s.stepResults.insert step.id (replannedResult message)).contains found.id = true
        rw [Dict.contains_insert, Bool.or_eq_true]
        exact hc.symm
      rw [hin] at hfresh
      cases hfresh
    · exact hp new hn
  · intro id hid
    show (s.stepResults.insert step.id (replannedResult message)).contains id = true
    rw [Dict.contains_insert, h.waiting id hid, Bool.or_true]
  · intro hpaused
    have hrun : s.status.isPaused = true := hpaused
    rw [ha.running] at hrun
    cases hrun

theorem closed_stored (repository : Repository) : Stored repository closedRules Closed where
  writes s s' note h hw := by
    cases hw with
    | runTimedOut stepId hr =>
        exact ⟨⟨h.keys, h.completed, h.total⟩, h.texts, h.paths, h.waiting, fun hp => by cases hp⟩
    | skipped stepId step reason ha =>
        have := h.recorded s stepId step ha (skippedResult reason) s.status (by rw [ha.running]; rfl)
        exact this
    | raised stepId step message ha => exact h.recorded s stepId step ha _ .failed rfl
    | settled stepId step known answer status result ha =>
        exact h.settled s stepId step ha known status result
    | completed now order hr =>
        exact ⟨⟨h.keys, h.completed, h.total⟩, h.texts, h.paths, h.waiting, fun hp => by cases hp⟩
    | replanned stepId step message remaining reply newSteps now ha hc he hr hn =>
        obtain ⟨ht, hp⟩ := hr reply newSteps rfl hn
        exact h.replanned s stepId step ha message newSteps now ht hp
    | hitlRejected decision error now hs hw =>
        have hin := contains_of_waiting s h s.waiting (by rw [hs]; rfl) BEq.rfl
        exact h.release s s.waiting (rejectedResult decision) (named_of_contains s h.toCounted _ hin)
          _ rfl rfl rfl rfl rfl rfl
    | hitlResumed decision hs hw =>
        have hin := contains_of_waiting s h s.waiting (by rw [hs]; rfl) BEq.rfl
        exact h.release s s.waiting _ (named_of_contains s h.toCounted _ hin) _ rfl rfl rfl rfl rfl rfl
    | waitResumed output hs hw =>
        have hin := contains_of_waiting s h s.waiting (isPaused_of_wait _ hs) BEq.rfl
        exact h.release s s.waiting _ (named_of_contains s h.toCounted _ hin) _ rfl rfl rfl rfl rfl rfl
    | eventTimedOut stepId hs hw =>
        have hin := contains_of_waiting s h stepId (by rw [hs]; rfl) hw
        exact h.release s stepId _ (named_of_contains s h.toCounted _ hin) _ rfl rfl rfl rfl rfl rfl
    | cancelled now hl =>
        exact ⟨⟨h.keys, h.completed, h.total⟩, h.texts, h.paths, h.waiting, fun hp => by cases hp⟩
    | waitTask stepId key hs hw hl =>
        have hn : named s.definition.steps stepId = true := by
          cases ht : s.waiting.truthy with
          | false => exact hl ht
          | true =>
              have hin := contains_of_waiting s h stepId (isPaused_of_wait _ hs) (hw ht)
              exact named_of_contains s h.toCounted _ hin
        exact h.release s stepId _ hn _ rfl rfl rfl rfl rfl rfl
    | eventTask stepId key hfresh hs hw hl =>
        obtain ⟨waiting, hwait, hb⟩ := exists_waiting_of_text s stepId hw hl
        rw [← Dict.contains_congr _ waiting stepId hb, h.waiting waiting hwait] at hfresh
        cases hfresh
    | hitlEscalated stepId output key hs hw =>
        have hin := contains_of_waiting s h stepId (by rw [hs]; rfl) hw
        have hsize := Dict.size_insert_of_contains s.stepResults stepId
          { priorResult s stepId with output := output } hin
        refine h.grow s _ (h.keys_insert s stepId _ (named_of_contains s h.toCounted _ hin)) ?_ _ rfl rfl
          (by rw [hsize]; exact h.completed) rfl ?_ h.paused
        · intro id hid
          simp [hid]
        · intro id hid
          simp [h.waiting id hid]
    | hitlTask stepId error now key hs hw =>
        have hin := contains_of_waiting s h stepId (by rw [hs]; rfl) hw
        exact h.release s stepId (hitlTimedOutResult s stepId) (named_of_contains s h.toCounted _ hin)
          _ rfl rfl rfl rfl rfl rfl
  encode s h := by
    show Closed (jsonSafe s)
    rw [h.jsonSafe]
    exact h

theorem initialState_closed (info : RunInfo) (definition : Definition) (now : Int)
    (htexts : TextIds definition.steps) (hpaths : PathsNamed definition.steps definition.steps) :
    Closed (initialState info definition now) := by
  refine ⟨⟨?_, rfl, rfl⟩, htexts, fun step hs _ => hpaths step hs, ?_, ?_⟩
  · intro key hk
    exact absurd hk List.not_mem_nil
  · intro id hid
    cases hid
  · intro hp
    cases hp

-- In every stored state the results belong to steps of the stored definition.
theorem counted_of_run (repository : Repository) (runId : String) (info : RunInfo)
    (raw : RawDefinition) (now : Int) (state : RunState) (hstart : startRun info raw now = .ok state)
    (htexts : TextIds state.definition.steps)
    (hpaths : PathsNamed state.definition.steps state.definition.steps)
    (world : World Engine) (hr : Run repository runId closedRules (started state) world) :
    ∀ row ∈ world.store.history,
      (∀ key ∈ row.state.stepResults.keys, named row.state.definition.steps key = true) ∧
      row.state.stepsCompleted = row.state.stepResults.size ∧
      row.state.stepsCompleted ≤ row.state.stepsTotal := by
  obtain ⟨definition, -, rfl⟩ := startRun_ok info raw now state hstart
  have hclosed := initialState_closed info definition now htexts hpaths
  have hinv := run_inv repository runId closedRules Closed (closed_stored repository) _ world
    (started_inv repository closedRules _ info definition now hclosed) hr
  intro row hm
  have h := (hinv.rows row hm).toCounted
  exact ⟨h.keys, h.completed, h.completed_le⟩

-- A condition with two branches, the second of which is a step or is not.
def branching (otherwise : String) : Definition :=
  { steps :=
      [{ id := .str "check", type := some .condition, truePath := some (.str "pay"),
         falsePath := some (.str otherwise) },
       { id := .str "pay" }, { id := .str "refuse" }] }

def branchingRun (otherwise : String) : RunState := initialState { id := "wfr_1" } (branching otherwise) 0

def trueResult : Json := .obj [("status", .str "completed"), ("result", .bool true)]

theorem branching_closed :
    TextIds (branchingRun "refuse").definition.steps ∧
      PathsNamed (branchingRun "refuse").definition.steps (branchingRun "refuse").definition.steps := by
  constructor
  · show ∀ step ∈ (branching "refuse").steps, step.id.isText = true
    decide +kernel
  · show ∀ step ∈ (branching "refuse").steps, ∀ path ∈ step.paths,
      named (branching "refuse").steps path = true
    decide +kernel

theorem counted_branching :
    ∃ world, Run .inMemory "wfr_1" closedRules (started (branchingRun "refuse")) world ∧
      world.store.history.map (fun row => (row.state.stepsCompleted, row.state.stepsTotal)) =
        [(3, 3), (3, 3), (2, 3), (0, 3)] ∧
      ∀ row ∈ world.store.history,
        (∀ key ∈ row.state.stepResults.keys, named row.state.definition.steps key = true) ∧
        row.state.stepsCompleted = row.state.stepResults.size ∧
        row.state.stepsCompleted ≤ row.state.stepsTotal := by
  obtain ⟨threads, hr⟩ := after_reached .inMemory "wfr_1" closedRules (answering trueResult)
    (answering_allowed closedRules ClosedReply rfl trueResult) (branchingRun "refuse") [.execute]
    (by simp [closedRules])
  have hcounts : (after .inMemory "wfr_1" (answering trueResult) (branchingRun "refuse")
      [.execute]).history.map (fun row => (row.state.stepsCompleted, row.state.stepsTotal)) =
        [(3, 3), (3, 3), (2, 3), (0, 3)] := by
    decide +kernel
  obtain ⟨htexts, hpaths⟩ := branching_closed
  exact ⟨_, hr, hcounts, counted_of_run .inMemory "wfr_1" { id := "wfr_1" } (branching "refuse").raw 0
    (branchingRun "refuse") rfl htexts hpaths _ hr⟩

-- The branch that leads nowhere is counted as a step.
theorem uncounted_ghost :
    startRun { id := "wfr_1" } (branching "ghost").raw 0 = .ok (branchingRun "ghost") ∧
      ∃ world, Run .inMemory "wfr_1" (Rules.free Engine) (started (branchingRun "ghost")) world ∧
        ∃ row ∈ world.store.history,
          (∃ key ∈ row.state.stepResults.keys, named row.state.definition.steps key = false) ∧
          row.state.stepsTotal < row.state.stepsCompleted := by
  obtain ⟨threads, hr⟩ := after_reached .inMemory "wfr_1" (Rules.free Engine) (answering trueResult)
    (fun _ => trivial) (branchingRun "ghost") [.execute] (fun _ _ _ => trivial)
  have hrow : (after .inMemory "wfr_1" (answering trueResult) (branchingRun "ghost")
      [.execute]).history.any (fun row =>
        row.state.stepResults.keys.any (fun key => !named row.state.definition.steps key) &&
        decide (row.state.stepsTotal < row.state.stepsCompleted)) = true := by
    decide +kernel
  obtain ⟨row, hm, hrow⟩ := List.any_eq_true.mp hrow
  obtain ⟨hkeys, hcount⟩ := Bool.and_eq_true_iff.mp hrow
  obtain ⟨key, hk, hn⟩ := List.any_eq_true.mp hkeys
  exact ⟨rfl, _, hr, row, hm, ⟨key, hk, by simpa using hn⟩, of_decide_eq_true hcount⟩

end Closed

end AgenticOrg.Workflows
