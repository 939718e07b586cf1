import AgenticOrg.Workflows.Branches
import AgenticOrg.Workflows.Runs.Timeout

namespace AgenticOrg.Workflows

open OrderedDict VersionedStore

-- The run is paused at a wait, and `stepId` is the step it waits for if it names one.
def Awaits (s : RunState) (stepId : Scalar) : Prop :=
  (s.status = .waitingDelay ∨ s.status = .waitingEvent) ∧
    (s.waiting.truthy = true → (s.waiting == stepId) = true)

section Task

variable (repository : Repository) (runId : String) (answer : (query : Query) → query.Answer)
  (stepId : Scalar) (store : Store Engine)

-- The task, started on what is stored, comes to the point where it hands over to the engine.
def Drives : Prop :=
  ∃ next, (runAlone repository answer (resumeWorkflowWait repository runId stepId) store).2 =
    .calling .execute next

variable (row : Row Engine) (rest : List (Row Engine)) (hh : store.history = row :: rest)

include hh

theorem runAlone_resumeWorkflowWait :
    runAlone repository answer (resumeWorkflowWait repository runId stepId) store =
      runAlone repository answer
        (if row.state.status = .running ∧ row.state.waiting.truthy = false ∧
            row.state.stepResults.contains stepId = false then
          .done (.task "retry" (some "waiting checkpoint not yet persisted"))
        else if row.state.status ≠ .waitingDelay ∧ row.state.status ≠ .waitingEvent then
          .done (.task "noop" (some (currentStatusIs row.state.status)))
        else if row.state.waiting.truthy ∧ (row.state.waiting == stepId) = false then
          .done (.task "error" (some "waiting_step_id does not match"))
        else
          saveOrRaise ⟨some row.version, row.state.release stepId resumedResult .running⟩
            { actor := .celeryResumeWorkflowWait, stepId := some stepId, event := .resumeWorkflowWait,
              key := some (resumeWaitKey runId stepId) }
            fun _ => driveEngineAndSync repository runId fun _ => .done (.task "resumed" none)) store := by
  rw [resumeWorkflowWait]
  exact runAlone_loadState repository runId answer _ _ _ store row rest hh

-- Anywhere but in the wait the task returns at once.
theorem resumeWorkflowWait_of_not_awaits (ha : ¬ Awaits row.state stepId) :
    ∃ result, runAlone repository answer (resumeWorkflowWait repository runId stepId) store =
      (store, .finished result) := by
  rw [runAlone_resumeWorkflowWait repository runId answer stepId store row rest hh]
  split
  · exact ⟨_, rfl⟩
  · split
    · exact ⟨_, rfl⟩
    · rename_i hwaits
      split
      · exact ⟨_, rfl⟩
      · rename_i hmatch
        refine absurd ⟨?_, ?_⟩ ha
        · by_contra hne
          exact hwaits (not_or.mp hne)
        · intro ht
          by_contra hne
          exact hmatch ⟨ht, Bool.eq_false_iff.mpr hne⟩

-- In the wait it saves, unless a save under its key is there already, and calls the engine.
theorem drives_of_awaits (ha : Awaits row.state stepId)
    (hs : ∀ state note, state.waitingStepId = none → note.stepId = some stepId →
      repository.storable state note = true) : Drives repository runId answer stepId store := by
  have hnot : ¬ (row.state.status = .running ∧ row.state.waiting.truthy = false ∧
      row.state.stepResults.contains stepId = false) := by
    rintro ⟨hr, -⟩
    rcases ha.1 with h | h <;> simp [hr] at h
  have hwaits : ¬ (row.state.status ≠ .waitingDelay ∧ row.state.status ≠ .waitingEvent) := by
    rintro ⟨hd, he⟩
    rcases ha.1 with h | h
    · exact hd h
    · exact he h
  have hmatch : ¬ (row.state.waiting.truthy = true ∧ (row.state.waiting == stepId) = false) := by
    rintro ⟨ht, hne⟩
    rw [ha.2 ht] at hne
    cases hne
  unfold Drives
  rw [runAlone_resumeWorkflowWait repository runId answer stepId store row rest hh, if_neg hnot,
    if_neg hwaits, if_neg hmatch, saveOrRaise]
  by_cases hd : ∃ found ∈ row :: rest, found.note.key = some (resumeWaitKey runId stepId)
  · have hdup := commit_duplicate repository store.history
      (⟨some row.version, row.state.release stepId resumedResult .running⟩ : Copy Engine)
      { actor := .celeryResumeWorkflowWait, stepId := some stepId, event := .resumeWorkflowWait,
        key := some (resumeWaitKey runId stepId) } _ rfl (hh ▸ hd)
    simp only [runAlone, saveState, Prog.run, hdup]
    exact ⟨_, rfl⟩
  · rw [runAlone_saveState repository answer row rest _ _ _ _ _ store hh
      (by
        intro key hk found hf hkey
        cases hk
        exact hd ⟨found, hf, hkey⟩) (hs _ _ rfl rfl)]
    exact ⟨_, rfl⟩

end Task

section Runs

-- The save of the task itself leaves the run running, with nobody at work on it.
theorem Writes.resumed {rules : Rules Engine} {s s' : RunState} {note : Note}
    (hw : Writes rules s s' note) (he : note.event = .resumeWorkflowWait) : s'.status = .running := by
  cases hw with
  | settled stepId step known answer status result =>
      have hevent : (settle known step status result s).2 = .resumeWorkflowWait := he
      rcases settle_event known step status result s with
        ⟨_, h⟩ | h | ⟨_, h⟩ | ⟨_, h⟩ | h <;> rw [h] at hevent <;> cases hevent
  | waitTask => rfl
  | _ => cases he

theorem not_awaits_of_running (s : RunState) (stepId : Scalar) (h : s.status = .running) :
    ¬ Awaits s stepId := by
  rintro ⟨hs | hs, -⟩ <;> simp [h] at hs

theorem resumed_rows (repository : Repository) (runId : String) (info : RunInfo)
    (definition : Definition) (now : Int) (world : World Engine)
    (hr : Run repository runId (Rules.free Engine) (started (initialState info definition now)) world)
    (row : Row Engine) (hm : row ∈ world.store.history) (he : row.note.event = .resumeWorkflowWait) :
    row.state.status = .running := by
  have htrue : Stored repository (Rules.free Engine) fun _ => True :=
    ⟨fun _ _ _ _ _ => trivial, fun _ _ => trivial⟩
  refine reaches_history _ _ (Rules.free Engine) (engineSpec _) (fun _ => True)
    (fun history => ∀ row ∈ history, row.note.event = .resumeWorkflowWait →
      row.state.status = .running) ?_ (keeps_body repository runId _) htrue _ world
    (started_inv repository _ _ info definition now trivial) ?_ hr row hm he
  · rintro top below rest ⟨-, s, s', -, hw, -, -, htop⟩ hall found hf he
    rcases List.mem_cons.mp hf with rfl | hf
    · have hs : s'.status = .running := Writes.resumed hw he
      rw [htop]
      exact hs
    · exact hall found hf he
  · intro found hf he
    simp only [started, World.init, List.mem_singleton] at hf
    rw [hf] at he
    cases he

-- Once a run has been paused at the step, a retry of the task hands it over to the engine
-- exactly when the run is still paused there. After the save of an earlier attempt the retry
-- returns without touching the run, which then stays running.
theorem resume_retry_iff (repository : Repository) (runId : String) (info : RunInfo)
    (raw : RawDefinition) (now : Int) (state : RunState) (hstart : startRun info raw now = .ok state)
    (world : World Engine) (hr : Run repository runId (Rules.free Engine) (started state) world)
    (name : String) (paused : Row Engine) (hpaused : paused ∈ world.store.history)
    (hwait : (paused.state.waiting == .str name) = true)
    (top : Row Engine) (rest : List (Row Engine)) (hh : world.store.history = top :: rest)
    (answer : (query : Query) → query.Answer) :
    ((Drives repository runId answer (.str name) world.store ∨ top.state.status.isLive = false) ↔
      Awaits top.state (.str name) ∨ top.state.status.isLive = false) ∧
    (¬ Awaits top.state (.str name) →
      (runAlone repository answer (resumeWorkflowWait repository runId (.str name)) world.store).1 =
        world.store) ∧
    (top.note.event = .resumeWorkflowWait →
      top.state.status = .running ∧ ¬ Drives repository runId answer (.str name) world.store) := by
  obtain ⟨definition, -, rfl⟩ := startRun_ok info raw now state hstart
  have htrue : Stored repository (Rules.free Engine) fun _ => True :=
    ⟨fun _ _ _ _ _ => trivial, fun _ _ => trivial⟩
  have hinv := run_inv repository runId _ _ htrue _ world
    (started_inv repository (Rules.free Engine) _ info definition now trivial) hr
  have hstorable : ∀ s note, s.waitingStepId = none → note.stepId = some (.str name) →
      repository.storable s note = true := by
    obtain ⟨waiting, hsome, hb⟩ := exists_waiting_of_text paused.state (.str name) hwait rfl
    have hname : waiting = .str name :=
      Scalar.eq_of_beq_text _ _ (Scalar.isText_of_beq _ _ hb rfl) rfl hb
    intro s note hs hn
    refine fitsColumn_of_stored repository paused _ _ world hinv hpaused s note hs ?_
    rw [hn, hsome, hname]
  have hstops : ¬ Awaits top.state (.str name) →
      ¬ Drives repository runId answer (.str name) world.store := by
    rintro ha ⟨next, hnext⟩
    obtain ⟨result, he⟩ := resumeWorkflowWait_of_not_awaits repository runId answer (.str name)
      world.store top rest hh ha
    rw [he] at hnext
    cases hnext
  refine ⟨?_, ?_, ?_⟩
  · constructor
    · rintro (hd | hl)
      · left
        by_contra ha
        exact hstops ha hd
      · exact .inr hl
    · rintro (ha | hl)
      · exact .inl (drives_of_awaits repository runId answer (.str name) world.store top rest hh ha
          hstorable)
      · exact .inr hl
  · intro ha
    obtain ⟨result, he⟩ := resumeWorkflowWait_of_not_awaits repository runId answer (.str name)
      world.store top rest hh ha
    rw [he]
  · intro he
    have hrunning := resumed_rows repository runId info definition now world hr top (by simp [hh]) he
    exact ⟨hrunning, hstops (not_awaits_of_running _ _ hrunning)⟩

def delayed : Definition := { steps := [{ id := .str "cool_down" }, { id := .str "notify" }] }

def delayedRun : RunState := initialState { id := "wfr_1" } delayed 0

def delayResult : Json := .obj [("status", .str "waiting_delay")]

-- The run waits, and a resume has taken the given number of accesses.
def resuming (accesses : Nat) : World Engine :=
  midway (.sqlAlchemy none) "wfr_1" (fun _ => true) (answering delayResult) delayedRun
    [.execute, .resumeWorkflowWait (.str "cool_down")] (List.replicate 5 0 ++ List.replicate accesses 1)

theorem resuming_reached (accesses : Nat) :
    Run (.sqlAlchemy none) "wfr_1" (Rules.free Engine) (started delayedRun) (resuming accesses) :=
  midway_reached (.sqlAlchemy none) "wfr_1" (Rules.free Engine) (fun _ => true) (answering delayResult)
    (fun _ => trivial) (fun _ _ _ => trivial) delayedRun _ _

-- A resume that is lost before its save is made up for by the retry.
theorem resume_retry_before_save :
    statuses (resuming 1).store.history = [.waitingDelay, .running] ∧
      Drives (.sqlAlchemy none) "wfr_1" (answering delayResult) (.str "cool_down")
        (resuming 1).store := by
  obtain ⟨top, rest, hh, hs, hw⟩ : ∃ top rest, (resuming 1).store.history = top :: rest ∧
      top.state.status = .waitingDelay ∧ top.state.waiting = .str "cool_down" := ⟨_, _, rfl, rfl, rfl⟩
  refine ⟨by decide +kernel, ?_⟩
  have hiff := (resume_retry_iff (.sqlAlchemy none) "wfr_1" { id := "wfr_1" } delayed.raw 0 delayedRun
    rfl (resuming 1) (resuming_reached 1) "cool_down" top (by simp [hh]) (by rw [hw]; rfl) top rest hh
    (answering delayResult)).1
  rcases hiff.mpr (.inl ⟨.inl hs, fun _ => by rw [hw]; rfl⟩) with h | h
  · exact h
  · rw [hs] at h
    cases h

-- One that is lost between its save and the engine is not: the retry finds the run running,
-- takes the entry of the step for the work of somebody else and leaves the run as it is.
theorem resume_retry_stranded :
    startRun { id := "wfr_1" } delayed.raw 0 = .ok delayedRun ∧
      Run (.sqlAlchemy none) "wfr_1" (Rules.free Engine) (started delayedRun) (resuming 3) ∧
      statuses (resuming 3).store.history = [.running, .waitingDelay, .running] ∧
      (∃ thread ∈ (resuming 3).threads, ∃ next : Result → Prog Engine,
        thread.prog = .call Op.execute next) ∧
      (runAlone (.sqlAlchemy none) (answering delayResult)
        (resumeWorkflowWait (.sqlAlchemy none) "wfr_1" (.str "cool_down")) (resuming 3).store).1 =
          (resuming 3).store ∧
      ¬ Drives (.sqlAlchemy none) "wfr_1" (answering delayResult) (.str "cool_down")
        (resuming 3).store := by
  obtain ⟨first, second, next, hthreads, hprog⟩ : ∃ (first second : Thread Engine)
      (next : Result → Prog Engine), (resuming 3).threads = [first, second] ∧
        second.prog = .call Op.execute next := ⟨_, _, _, rfl, rfl⟩
  refine ⟨rfl, resuming_reached 3, by decide +kernel, ⟨second, by simp [hthreads], next, hprog⟩, rfl, ?_⟩
  rintro ⟨next, hnext⟩
  have hstop : ∃ result, (runAlone (.sqlAlchemy none) (answering delayResult)
      (resumeWorkflowWait (.sqlAlchemy none) "wfr_1" (.str "cool_down")) (resuming 3).store).2 =
        .finished result := ⟨_, rfl⟩
  obtain ⟨result, hresult⟩ := hstop
  rw [hresult] at hnext
  cases hnext

end Runs

end AgenticOrg.Workflows
