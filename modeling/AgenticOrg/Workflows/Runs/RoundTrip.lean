import AgenticOrg.Workflows.Runs.Places
import AgenticOrg.Workflows.Runs.Status

namespace AgenticOrg.Workflows

open OrderedDict VersionedStore

section RoundTrip

-- The ids the engine looks results up by.
def lookups (steps : List Step) : List Scalar := steps.flatMap fun step => step.id :: step.deps

-- A key that is found by the same ids before and after it has been stored, as texts are.
def KeepsPlace (steps : List Step) (key : Scalar) : Prop :=
  ∀ id ∈ lookups steps, (key.jsonKey == id) = (key == id)

def SteadyReply (s : RunState) (failed : Scalar) (newSteps : List Step) : Prop :=
  Steady KeepsPlace s.stepResults.keys (replannedSteps s failed newSteps)

def steadyRules : Rules Engine where
  load
    | .resumeWorkflowWait stepId, s => s.waiting.truthy = false → stepId.isText = true
    | .timeoutWorkflowEvent stepId, _ => stepId.isText = true
    | _, _ => True
  answer := RepliesFit SteadyReply

-- A step is done, and may be run, for the engine that loads the state just as for
-- the one that saved it.
def SameDone (s : RunState) : Prop :=
  ∀ step ∈ s.definition.steps,
    (jsonSafe s).stepResults.contains step.id = s.stepResults.contains step.id ∧
    checkDependencies step (jsonSafe s) = checkDependencies step s

theorem keepsPlace_of_text (steps : List Step) (key : Scalar) (ht : key.isText = true) :
    KeepsPlace steps key := by
  intro id _
  rw [Scalar.jsonKey_of_isText key ht]

theorem Steady.sameDone (s : RunState) (h : Steady KeepsPlace s.stepResults.keys s.definition.steps) :
    SameDone s := by
  have hget : ∀ id ∈ lookups s.definition.steps,
      (jsonSafe s).stepResults.get? id = s.stepResults.get? id := by
    intro id hid
    exact Dict.get?_mapKeys Scalar.jsonKey s.stepResults id fun key hk => h.keys key hk id hid
  have hid : ∀ step ∈ s.definition.steps, step.id ∈ lookups s.definition.steps := by
    intro step hs
    exact List.mem_flatMap.mpr ⟨step, hs, by simp⟩
  intro step hs
  refine ⟨?_, ?_⟩
  · rw [← Dict.isSome_get?, hget step.id (hid step hs), Dict.isSome_get?]
  · apply checkDependencies_congr step (jsonSafe s) s rfl
    · intro found hf
      exact hget found.id (hid found hf)
    · intro dep hdep
      exact hget dep (List.mem_flatMap.mpr ⟨step, hs, by simp [hdep]⟩)

theorem placed_stored (repository : Repository) :
    Stored repository steadyRules (Placed KeepsPlace) where
  writes s s' note h hw := by
    refine h.writes KeepsPlace keepsPlace_of_text steadyRules s s' note (fun _ hl _ => hl)
      (fun _ hl => hl) ?_ hw
    intro step remaining message reply newSteps _ hr hn
    exact hr reply newSteps rfl hn
  encode s h := by
    refine ⟨⟨h.steady.texts, ?_, h.steady.paths⟩, h.waiting, h.paused⟩
    intro key hk
    obtain ⟨original, -, rfl⟩ := Dict.mem_keys_mapKeys Scalar.jsonKey s.stepResults key hk
    exact keepsPlace_of_text _ _ rfl

-- Every state an operation holds, and every state it is about to save.
theorem sameDone_of_run (repository : Repository) (runId : String) (info : RunInfo)
    (raw : RawDefinition) (now : Int) (state : RunState) (hstart : startRun info raw now = .ok state)
    (hsteady : Steady KeepsPlace [] state.definition.steps)
    (world : World Engine) (hr : Run repository runId steadyRules (started state) world)
    (thread : Thread Engine) (hm : thread ∈ world.threads) :
    (∀ v s, thread.held = some (v, s) → SameDone s) ∧
    (∀ copy note next, thread.prog = .save copy note next → SameDone copy.state) := by
  obtain ⟨definition, -, rfl⟩ := startRun_ok info raw now state hstart
  have hplaced : Placed KeepsPlace (initialState info definition now) := by
    refine ⟨hsteady, ?_, ?_⟩
    · intro id hid
      cases hid
    · intro hp
      cases hp
  have hstored := placed_stored repository
  have hinv := run_inv repository runId steadyRules (Placed KeepsPlace) hstored _ world
    (started_inv repository steadyRules _ info definition now hplaced) hr
  have hthread := hinv.threads thread hm
  refine ⟨fun v s hs => (hthread.held v s hs).1.steady.sameDone, ?_⟩
  intro copy note next hprog
  have hrespects := hthread.respects
  rw [hprog] at hrespects
  obtain ⟨v, s, hheld, -, hw⟩ := hrespects.1
  exact (hstored.writes s copy.state note (hthread.held v s hheld).1 hw).steady.sameDone

theorem sameDone_branching :
    ∃ world, Run .inMemory "wfr_1" steadyRules (started (branchingRun "refuse")) world ∧
      world.threads.map (fun thread => thread.held.map (·.2.stepResults.size)) = [some 2] ∧
      ∀ thread ∈ world.threads,
        (∀ v s, thread.held = some (v, s) → SameDone s) ∧
        (∀ copy note next, thread.prog = .save copy note next → SameDone copy.state) := by
  have hr := midway_reached .inMemory "wfr_1" steadyRules Op.isExecute (answering trueResult)
    (answering_allowed steadyRules SteadyReply rfl trueResult) (fun op ho s => by cases op <;> trivial)
    (branchingRun "refuse") [.execute]
    [0, 0, 0, 0, 0]
  have hsizes : (midway .inMemory "wfr_1" Op.isExecute (answering trueResult) (branchingRun "refuse")
      [.execute] [0, 0, 0, 0, 0]).threads.map (fun thread => thread.held.map (·.2.stepResults.size)) =
        [some 2] := by
    decide +kernel
  refine ⟨_, hr, hsizes, sameDone_of_run .inMemory "wfr_1" { id := "wfr_1" } (branching "refuse").raw 0
    (branchingRun "refuse") rfl ?_ _ hr⟩
  have htexts : ∀ step ∈ (branching "refuse").steps, step.id.isText = true ∧
      ∀ path ∈ step.paths, path.isText = true := by
    decide +kernel
  exact ⟨fun step hs => (htexts step hs).1, fun key hk => absurd hk List.not_mem_nil,
    fun step hs path hp => keepsPlace_of_text _ path ((htexts step hs).2 path hp)⟩

-- A step whose id is a number is done, and is not done any more once that is stored.
theorem numbered_not_sameDone :
    startRun { id := "wfr_1" } (Definition.raw { steps := [{ id := .int 1 }] }) 0 =
        .ok (initialState { id := "wfr_1" } { steps := [{ id := .int 1 }] } 0) ∧
      ∃ world, Run .inMemory "wfr_1" (Rules.free Engine)
          (started (initialState { id := "wfr_1" } { steps := [{ id := .int 1 }] } 0)) world ∧
        ∃ thread ∈ world.threads, ∃ v s, thread.held = some (v, s) ∧ ¬ SameDone s := by
  have hr := midway_reached .inMemory "wfr_1" (Rules.free Engine) (fun _ => true)
    (answering completedResult) (fun _ => trivial) (fun _ _ _ => trivial)
    (initialState { id := "wfr_1" } { steps := [{ id := .int 1 }] } 0) [.execute] [0, 0, 0, 0]
  have hfound : (midway .inMemory "wfr_1" (fun _ => true) (answering completedResult)
      (initialState { id := "wfr_1" } { steps := [{ id := .int 1 }] } 0) [.execute]
      [0, 0, 0, 0]).threads.any (fun thread => thread.held.any fun held =>
        held.2.definition.steps.any fun step =>
          held.2.stepResults.contains step.id && !(jsonSafe held.2).stepResults.contains step.id) =
      true := by
    decide +kernel
  obtain ⟨thread, hm, hheld⟩ := List.any_eq_true.mp hfound
  obtain ⟨⟨v, s⟩, hv, hsteps⟩ := (Option.any_eq_true _ _).mp hheld
  obtain ⟨step, hs, hc⟩ := List.any_eq_true.mp hsteps
  refine ⟨rfl, _, hr, thread, hm, v, s, hv, ?_⟩
  intro hsame
  have hkey := (hsame step hs).1
  simp only [Bool.and_eq_true, Bool.not_eq_true'] at hc
  rw [hc.1, hc.2] at hkey
  cases hkey

end RoundTrip

end AgenticOrg.Workflows
