import AgenticOrg.Workflows.Runs.Alone
import AgenticOrg.Workflows.Runs.Status

namespace AgenticOrg.Workflows

open OrderedDict VersionedStore

-- The state a run is in once the event its step waited for has timed out.
def timedOutState (state : RunState) (stepId : Scalar) (completedBy : Option String) : RunState :=
  state.release stepId { output := .obj [], status := .timedOut, completedBy := completedBy } .running

-- `after` is `before` with one save of such a state on top, and the engine is to go on.
def TimesOut (before : Store Engine) (after : Store Engine × Stop Engine) (stepId : Scalar)
    (completedBy : Option String) : Prop :=
  ∃ row rest note next, before.history = row :: rest ∧
    after.1.history = ⟨row.version + 1, jsonSafe (timedOutState row.state stepId completedBy), note⟩ ::
      row :: rest ∧
    after.2 = .calling .execute next

section Timeout

variable (repository : Repository) (runId : String) (answer : (query : Query) → query.Answer)
  (store : Store Engine) (row : Row Engine) (rest : List (Row Engine)) (stepId : Scalar)

theorem fitsColumn_of_stored (P : RunState → Prop) (rules : Rules Engine) (world : World Engine)
    (hinv : Inv (repository.backend Op Result) rules (engineSpec rules) P world)
    (hm : row ∈ world.store.history) (state : RunState) (note : Note) (hw : state.waitingStepId = none)
    (hn : note.stepId = row.state.waitingStepId) : repository.storable state note = true := by
  obtain ⟨s, hs, hstorable⟩ := hinv.stored row hm
  have hwait : row.state.waitingStepId = s.waitingStepId := by rw [hs]; rfl
  cases repository with
  | inMemory => rfl
  | sqlAlchemy tenant =>
      have hfits : fitsColumn s.waitingStepId = true := (Bool.and_eq_true_iff.mp hstorable).1
      show (fitsColumn state.waitingStepId && fitsColumn note.stepId) = true
      rw [hw, hn, hwait, hfits]
      rfl

theorem contains_eq_false_of_not_text (s : RunState) (ht : stepId.isText = false) :
    (jsonSafe s).stepResults.contains stepId = false := by
  rw [contains_jsonSafe, List.any_eq_false]
  intro key _
  rw [Scalar.jsonKey_beq key stepId ht]
  simp

theorem timeoutEventWait_timesOut (hh : store.history = row :: rest)
    (hstatus : row.state.status = .waitingEvent) (hwait : row.state.waitingStepId = some stepId)
    (hs : ∀ state note, state.waitingStepId = none → note.stepId = row.state.waitingStepId →
      repository.storable state note = true) :
    TimesOut store (runAlone repository answer (timeoutEventWait repository runId stepId) store)
      stepId none := by
  have hw : (row.state.waiting == stepId) = true := by
    simp [RunState.waiting, hwait]
  have hcond : ¬ (row.state.status ≠ .waitingEvent ∨ (row.state.waiting == stepId) = false) := by
    simp [hstatus, hw]
  rw [timeoutEventWait, runAlone_loadState repository runId answer _ _ _ store row rest hh]
  dsimp only
  rw [if_neg hcond, saveOrRaise, runAlone_saveState repository answer row rest _ _ _ _ _ store hh
    (by intro key hk; cases hk) (hs _ _ rfl hwait.symm)]
  exact ⟨row, rest, _, _, hh, rfl, rfl⟩

section Task

variable (hopen : (answer (.markTimedOut stepId) : Option ListenerStatus).any ListenerStatus.closed = false)
  (hh : store.history = row :: rest)

include hopen hh

theorem runAlone_timeoutWorkflowEvent :
    runAlone repository answer (timeoutWorkflowEvent repository runId stepId) store =
      runAlone repository answer
        (if row.state.stepResults.contains stepId then .done (.task "already_completed" none)
          else if row.state.status = .running ∧ row.state.waiting.truthy = false then
            .done (.task "retry" (some "waiting checkpoint not yet persisted"))
          else if (row.state.waiting == stepId) = false then .done (.task "noop" none)
          else
            saveOrRaise ⟨some row.version, row.state.release stepId timedOutResult .running⟩
              { actor := .celeryTimeoutWorkflowEvent, stepId := some stepId,
                event := .timeoutWorkflowEvent, key := some (timeoutEventKey runId stepId) }
              fun _ => driveEngineAndSync repository runId fun _ => .done (.task "timed_out" none)) store := by
  rw [timeoutWorkflowEvent]
  simp only [runAlone, Prog.run]
  rw [if_neg (by rw [hopen]; simp)]
  exact runAlone_loadState repository runId answer _ _ _ store row rest hh

-- The pause has recorded the step, and the task takes that for its result.
theorem timeoutWorkflowEvent_of_recorded (hc : row.state.stepResults.contains stepId = true) :
    runAlone repository answer (timeoutWorkflowEvent repository runId stepId) store =
      (store, .finished (.task "already_completed" none)) := by
  rw [runAlone_timeoutWorkflowEvent repository runId answer store row rest stepId hopen hh, if_pos hc]
  rfl

theorem timeoutWorkflowEvent_timesOut (hc : row.state.stepResults.contains stepId = false)
    (hstatus : row.state.status = .waitingEvent) (hwait : row.state.waitingStepId = some stepId)
    (hfresh : ∀ found ∈ row :: rest, found.note.key ≠ some (timeoutEventKey runId stepId))
    (hs : ∀ state note, state.waitingStepId = none → note.stepId = row.state.waitingStepId →
      repository.storable state note = true) :
    TimesOut store (runAlone repository answer (timeoutWorkflowEvent repository runId stepId) store)
      stepId (some "timeout_workflow_event") := by
  have hw : (row.state.waiting == stepId) = true := by
    simp [RunState.waiting, hwait]
  rw [runAlone_timeoutWorkflowEvent repository runId answer store row rest stepId hopen hh,
    if_neg (by simp [hc]), if_neg (by simp [hstatus]), if_neg (by simp [hw]), saveOrRaise,
    runAlone_saveState repository answer row rest _ _ _ _ _ store hh
      (by intro key hk; cases hk; exact hfresh) (hs _ _ rfl hwait.symm)]
  exact ⟨row, rest, _, _, hh, rfl, rfl⟩

theorem timeoutWorkflowEvent_of_duplicate (hc : row.state.stepResults.contains stepId = false)
    (hstatus : row.state.status = .waitingEvent) (hwait : row.state.waitingStepId = some stepId)
    (hd : ∃ found ∈ row :: rest, found.note.key = some (timeoutEventKey runId stepId)) :
    (runAlone repository answer (timeoutWorkflowEvent repository runId stepId) store).1.history =
      store.history := by
  have hw : (row.state.waiting == stepId) = true := by
    simp [RunState.waiting, hwait]
  rw [runAlone_timeoutWorkflowEvent repository runId answer store row rest stepId hopen hh,
    if_neg (by simp [hc]), if_neg (by simp [hstatus]), if_neg (by simp [hw])]
  have hdup := commit_duplicate repository store.history
    (⟨some row.version, row.state.release stepId timedOutResult .running⟩ : Copy Engine)
    { actor := .celeryTimeoutWorkflowEvent, stepId := some stepId, event := .timeoutWorkflowEvent,
      key := some (timeoutEventKey runId stepId) } _ rfl (hh ▸ hd)
  simp only [runAlone, saveOrRaise, saveState, Prog.run, hdup]
  rfl

end Task

end Timeout

section Listener

variable (repository : Repository) (runId : String) (answer : (query : Query) → query.Answer)
  (store : Store Engine) (stepId : Scalar) (listener : Option ListenerStatus)
  (hanswer : answer (.markTimedOut stepId) = markTimedOut listener)

theorem closed_markTimedOut :
    (markTimedOut listener).any ListenerStatus.closed = listener.any ListenerStatus.closed := by
  cases listener with
  | none => rfl
  | some status => cases status <;> rfl

theorem open_iff (hfree : listener ≠ some .matched) :
    listener.any ListenerStatus.closed = false ↔
      listener ≠ some .cancelled ∧ listener ≠ some .expired := by
  cases listener with
  | none => simp
  | some status => cases status <;> simp_all [ListenerStatus.closed]

include hanswer

theorem timeoutWorkflowEvent_of_closed (hc : listener.any ListenerStatus.closed = true) :
    (runAlone repository answer (timeoutWorkflowEvent repository runId stepId) store).1 = store := by
  have hrecord : (answer (.markTimedOut stepId) : Option ListenerStatus).any ListenerStatus.closed =
      true := by
    rw [hanswer, closed_markTimedOut, hc]
  rw [timeoutWorkflowEvent]
  simp only [runAlone, Prog.run]
  rw [if_pos hrecord]
  rfl

end Listener

theorem not_timesOut_of_same (before : Store Engine) (after : Store Engine × Stop Engine)
    (stepId : Scalar) (completedBy : Option String) (hsame : after.1.history = before.history) :
    ¬ TimesOut before after stepId completedBy := by
  rintro ⟨row, rest, note, next, hbefore, hafter, -⟩
  rw [hsame, hbefore] at hafter
  exact List.cons_ne_self _ _ hafter.symm

-- The task and the engine's own method, at a run that waits for the event of `stepId`
-- which nobody has claimed: they leave the same state exactly when the task does not
-- find the entry that the pause itself has written, and has not been here before.
theorem timeout_task_iff (repository : Repository) (runId : String) (info : RunInfo)
    (raw : RawDefinition) (now : Int) (state : RunState) (hstart : startRun info raw now = .ok state)
    (world : World Engine) (hr : Run repository runId (Rules.free Engine) (started state) world)
    (row : Row Engine) (rest : List (Row Engine)) (hh : world.store.history = row :: rest)
    (stepId : Scalar) (hstatus : row.state.status = .waitingEvent)
    (hwait : row.state.waitingStepId = some stepId)
    (listener : Option ListenerStatus) (hfree : listener ≠ some .matched)
    (answer : (query : Query) → query.Answer)
    (hanswer : answer (.markTimedOut stepId) = markTimedOut listener) :
    TimesOut world.store (runAlone repository answer (timeoutEventWait repository runId stepId) world.store)
      stepId none ∧
    (TimesOut world.store
        (runAlone repository answer (timeoutWorkflowEvent repository runId stepId) world.store)
        stepId (some "timeout_workflow_event") ↔
      stepId.isText = false ∧ (listener ≠ some .cancelled ∧ listener ≠ some .expired) ∧
        ∀ found ∈ world.store.history, found.note.key ≠ some (timeoutEventKey runId stepId)) := by
  obtain ⟨definition, -, rfl⟩ := startRun_ok info raw now state hstart
  have hinv := run_inv repository runId _ RecordsWaiting (recordsWaiting_stored repository _) _ world
    (started_inv repository (Rules.free Engine) _ info definition now fun id h => by cases h) hr
  have hm : row ∈ world.store.history := by simp [hh]
  have hs := fitsColumn_of_stored repository row _ _ world hinv hm
  refine ⟨timeoutEventWait_timesOut repository runId answer world.store row rest stepId hh hstatus
    hwait hs, ?_⟩
  rw [← open_iff listener hfree, hh]
  cases hl : listener.any ListenerStatus.closed with
  | true =>
      have hsame := timeoutWorkflowEvent_of_closed repository runId answer world.store stepId listener
        hanswer hl
      simpa using not_timesOut_of_same world.store _ stepId _ (by rw [hsame])
  | false =>
      have hopen : (answer (.markTimedOut stepId) : Option ListenerStatus).any ListenerStatus.closed =
          false := by
        rw [hanswer, closed_markTimedOut, hl]
      cases ht : stepId.isText with
      | true =>
          have hsame := timeoutWorkflowEvent_of_recorded repository runId answer world.store row rest
            stepId hopen hh (hinv.rows row hm stepId hwait ht)
          simpa using not_timesOut_of_same world.store _ stepId _ (by rw [hsame])
      | false =>
          have hc : row.state.stepResults.contains stepId = false := by
            obtain ⟨s, he, -⟩ := hinv.stored row hm
            rw [he]
            exact contains_eq_false_of_not_text stepId s ht
          constructor
          · intro h
            refine ⟨rfl, rfl, fun found hf hkey => ?_⟩
            exact not_timesOut_of_same world.store _ stepId _ (timeoutWorkflowEvent_of_duplicate
              repository runId answer world.store row rest stepId hopen hh hc hstatus hwait
              ⟨found, hf, hkey⟩) h
          · rintro ⟨-, -, hfresh⟩
            exact timeoutWorkflowEvent_timesOut repository runId answer world.store row rest stepId
              hopen hh hc hstatus hwait hfresh hs

theorem timeout_task_null :
    ∃ world, Run (.sqlAlchemy none) "wfr_1" (Rules.free Engine) (started (eventWaitRun .null)) world ∧
      statuses world.store.history = [.waitingEvent, .running] ∧
      TimesOut world.store
        (runAlone (.sqlAlchemy none) (answering waitingResult)
          (timeoutWorkflowEvent (.sqlAlchemy none) "wfr_1" .null) world.store)
        .null (some "timeout_workflow_event") := by
  obtain ⟨threads, hr⟩ := after_reached (.sqlAlchemy none) "wfr_1" (Rules.free Engine)
    (answering waitingResult) (fun _ => trivial) (eventWaitRun .null) [.execute] (fun _ _ _ => trivial)
  refine ⟨_, hr, by dsimp only; decide +kernel, ?_⟩
  refine (timeout_task_iff (.sqlAlchemy none) "wfr_1" { id := "wfr_1" } (eventWait .null).raw 0
    (eventWaitRun .null) rfl _ hr _ _ rfl .null rfl rfl (some .waiting) (by simp)
    (answering waitingResult) rfl).2.mpr ⟨rfl, by simp, ?_⟩
  intro found hf
  have hkeys : (after (.sqlAlchemy none) "wfr_1" (answering waitingResult) (eventWaitRun .null)
      [.execute]).history.map (·.note.key) = [none, none] := by
    decide +kernel
  have hk := List.mem_map_of_mem (f := fun row : Row Engine => row.note.key) hf
  rw [hkeys] at hk
  simp only [List.mem_cons, List.not_mem_nil, or_false, or_self] at hk
  rw [hk]
  simp

-- The usual case, a step id that is a text: the listener is timed out and the run stays.
theorem timeout_task_stuck :
    startRun { id := "wfr_1" } (eventWait (.str "approve")).raw 0 = .ok (eventWaitRun (.str "approve")) ∧
      ∃ world, Run (.sqlAlchemy none) "wfr_1" (Rules.free Engine)
          (started (eventWaitRun (.str "approve"))) world ∧
        markTimedOut (some .waiting) = answering waitingResult (.markTimedOut (.str "approve")) ∧
        statuses (runAlone (.sqlAlchemy none) (answering waitingResult)
          (timeoutWorkflowEvent (.sqlAlchemy none) "wfr_1" (.str "approve")) world.store).1.history =
            [.waitingEvent, .running] ∧
        ¬ TimesOut world.store
          (runAlone (.sqlAlchemy none) (answering waitingResult)
            (timeoutWorkflowEvent (.sqlAlchemy none) "wfr_1" (.str "approve")) world.store)
          (.str "approve") (some "timeout_workflow_event") := by
  obtain ⟨threads, hr⟩ := after_reached (.sqlAlchemy none) "wfr_1" (Rules.free Engine)
    (answering waitingResult) (fun _ => trivial) (eventWaitRun (.str "approve")) [.execute]
    (fun _ _ _ => trivial)
  refine ⟨rfl, _, hr, rfl, by dsimp only; decide +kernel, ?_⟩
  apply not_timesOut_of_same
  rfl

end AgenticOrg.Workflows
