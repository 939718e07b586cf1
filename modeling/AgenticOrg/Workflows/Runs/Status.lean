import AgenticOrg.Workflows.Runs

namespace AgenticOrg.Workflows

open OrderedDict VersionedStore

-- Once a status with `final` is stored, every later row has the same one.
def StatusStays (final : RunStatus → Bool) (history : List (Row Engine)) : Prop :=
  ∀ above row below, history = above ++ row :: below → final row.state.status = true →
    ∀ newer ∈ above, newer.state.status = row.state.status

def keepsStatus (final : RunStatus → Bool) (newer older : Row Engine) : Prop :=
  final older.state.status = true → newer.state.status = older.state.status

theorem statusStays_iff (final : RunStatus → Bool) (history : List (Row Engine)) :
    StatusStays final history ↔ history.IsChain (keepsStatus final) := by
  induction history with
  | nil =>
      refine ⟨fun _ => .nil, fun _ above row below h => ?_⟩
      simp at h
  | cons newer rest ih =>
      constructor
      · intro h
        have hrest : StatusStays final rest := by
          intro above row below hsplit hf found hfound
          exact h (newer :: above) row below (by rw [hsplit]; rfl) hf found (by simp [hfound])
        cases rest with
        | nil => exact .singleton _
        | cons older rest =>
            refine List.isChain_cons_cons.mpr ⟨fun hf => ?_, ih.mp hrest⟩
            exact h [newer] older rest rfl hf newer (by simp)
      · intro h above row below hsplit hf found hfound
        cases above with
        | nil => simp at hfound
        | cons first above =>
            obtain ⟨rfl, hrest⟩ := List.cons.inj hsplit
            have hstays := ih.mpr h.tail above row below hrest hf
            rcases List.mem_cons.mp hfound with rfl | hfound
            · subst hrest
              cases above with
              | nil => exact (List.isChain_cons_cons.mp h).1 hf
              | cons second above =>
                  have hsecond := hstays second (by simp)
                  rw [← hsecond] at hf ⊢
                  exact (List.isChain_cons_cons.mp h).1 hf
            · exact hstays found hfound

def statuses (history : List (Row Engine)) : List RunStatus := history.map (·.state.status)

theorem statusStays_iff_statuses (final : RunStatus → Bool) (history : List (Row Engine)) :
    StatusStays final history ↔
      (statuses history).IsChain fun new old => final old = true → new = old := by
  rw [statusStays_iff, statuses, List.isChain_map]
  rfl

section Terminal

def RunStatus.isTerminal : RunStatus → Bool
  | .completed | .failed | .timedOut | .cancelled => true
  | _ => false

-- The engine's own operations, without the tasks of the queue.
def engineOnly : Rules Engine where
  load
    | .resumeWorkflowWait _, _ | .timeoutWorkflowEvent _, _ | .timeoutWorkflowHitl _, _
    | .resumeHaltedWorkflow, _ => False
    | _, _ => True
  answer _ _ := True

-- Over a run that is over, only `cancel` and the event timeout task save anything.
theorem Writes.of_terminal {rules : Rules Engine} {s s' : RunState} {note : Note}
    (hw : Writes rules s s' note) (ht : s.status.isTerminal = true) :
    (note.actor = .cancel ∧ s'.status = .cancelled) ∨
    ∃ stepId, rules.load (.timeoutWorkflowEvent stepId) s ∧ (s.waiting == stepId) = true ∧
      s.stepResults.contains stepId = false := by
  have hrun : s.status ≠ .running := by
    intro hr
    simp [hr, RunStatus.isTerminal] at ht
  cases hw with
  | cancelled => exact .inl ⟨rfl, rfl⟩
  | eventTask stepId key hfresh hs hwait hl => exact .inr ⟨stepId, hl, hwait, hfresh⟩
  | runTimedOut stepId hr => exact absurd hr hrun
  | skipped stepId step reason ha => exact absurd ha.running hrun
  | raised stepId step message ha => exact absurd ha.running hrun
  | settled stepId step known answer status result ha => exact absurd ha.running hrun
  | completed now order hr => exact absurd hr hrun
  | replanned stepId step message remaining reply newSteps now ha => exact absurd ha.running hrun
  | hitlRejected decision error now hs => simp [hs, RunStatus.isTerminal] at ht
  | hitlResumed decision hs => simp [hs, RunStatus.isTerminal] at ht
  | waitResumed output hs => rcases hs with hs | hs <;> simp [hs, RunStatus.isTerminal] at ht
  | eventTimedOut stepId hs => simp [hs, RunStatus.isTerminal] at ht
  | waitTask stepId key hs => rcases hs with hs | hs <;> simp [hs, RunStatus.isTerminal] at ht
  | hitlEscalated stepId output key hs => simp [hs, RunStatus.isTerminal] at ht
  | hitlTask stepId error now key hs => simp [hs, RunStatus.isTerminal] at ht

theorem Writes.status_of_terminal {s s' : RunState} {note : Note} (hw : Writes engineOnly s s' note)
    (ht : s.status.isTerminal = true) :
    note.actor = .cancel ∧ s'.status = .cancelled := by
  rcases hw.of_terminal ht with h | ⟨stepId, hl, -⟩
  · exact h
  · exact hl.elim

theorem Writes.status_of_cancel {rules : Rules Engine} {s s' : RunState} {note : Note}
    (hw : Writes rules s s' note) (ha : note.actor = .cancel) : s'.status = .cancelled := by
  cases hw with
  | cancelled => rfl
  | _ => cases ha

-- `cancel` is the one operation without a look at the status it replaces.
def cancelsLive (newer older : Row Engine) : Prop :=
  newer.note.actor = .cancel → older.state.status.isTerminal = true → older.state.status = .cancelled

theorem keepsStatus_iff_cancelsLive (repository : Repository) (P : RunState → Prop)
    (newer older : Row Engine)
    (hl : Link (repository.backend Op Result) (engineSpec engineOnly) P newer older) :
    keepsStatus RunStatus.isTerminal newer older ↔ cancelsLive newer older := by
  obtain ⟨-, s, s', -, hw, -, hs, hs'⟩ := hl
  have hold : older.state.status = s.status := by rw [hs]; rfl
  have hnew : newer.state.status = s'.status := by rw [hs']; rfl
  simp only [keepsStatus, cancelsLive, hold, hnew]
  constructor
  · intro h ha ht
    rw [← h ht]
    exact Writes.status_of_cancel hw ha
  · intro h ht
    obtain ⟨ha, hc⟩ := Writes.status_of_terminal hw ht
    rw [hc, h ha ht]

theorem everState_stored (repository : Repository) (rules : Rules Engine) :
    Stored repository rules fun _ => True := ⟨fun _ _ _ _ _ => trivial, fun _ _ => trivial⟩

-- A terminal status stays as long as nobody cancels what is over already.
theorem terminal_stays_iff (repository : Repository) (runId : String) (info : RunInfo)
    (raw : RawDefinition) (now : Int) (state : RunState) (hstart : startRun info raw now = .ok state)
    (world : World Engine) (hr : Run repository runId engineOnly (started state) world) :
    StatusStays RunStatus.isTerminal world.store.history ↔ world.store.history.IsChain cancelsLive := by
  obtain ⟨definition, -, rfl⟩ := startRun_ok info raw now state hstart
  have hinv := run_inv repository runId engineOnly (fun _ => True) (everState_stored repository _)
    _ world (started_inv repository engineOnly _ info definition now trivial) hr
  rw [statusStays_iff]
  exact isChain_congr world.store.history hinv.chain
    (keepsStatus_iff_cancelsLive repository fun _ => True)

def oneStep : Definition := { steps := [{ id := .str "fetch" }] }

def oneStepRun : RunState := initialState { id := "wfr_1" } oneStep 0

def completedResult : Json := .obj [("status", .str "completed")]

-- Cancelled before it is executed, and cancelled again.
theorem terminal_stays_oneStep :
    ∃ world, Run .inMemory "wfr_1" engineOnly (started oneStepRun) world ∧
      statuses world.store.history = [.cancelled, .cancelled, .running] ∧
      StatusStays RunStatus.isTerminal world.store.history ∧ world.store.history.IsChain cancelsLive := by
  obtain ⟨threads, hr⟩ := after_reached .inMemory "wfr_1" engineOnly (answering completedResult)
    (fun _ => trivial) oneStepRun [.cancel, .execute, .cancel] (by simp [engineOnly])
  have hstatus : statuses (after .inMemory "wfr_1" (answering completedResult) oneStepRun
      [.cancel, .execute, .cancel]).history = [.cancelled, .cancelled, .running] := by
    decide +kernel
  have hstays : StatusStays RunStatus.isTerminal (after .inMemory "wfr_1" (answering completedResult) oneStepRun
      [.cancel, .execute, .cancel]).history := by
    rw [statusStays_iff_statuses, hstatus]
    simp [RunStatus.isTerminal]
  exact ⟨_, hr, hstatus, hstays,
    (terminal_stays_iff .inMemory "wfr_1" { id := "wfr_1" } oneStep.raw 0 oneStepRun rfl _ hr).mp hstays⟩

-- A run that has completed can still be cancelled.
theorem completed_then_cancelled :
    startRun { id := "wfr_1" } oneStep.raw 0 = .ok oneStepRun ∧
      ∃ world, Run .inMemory "wfr_1" engineOnly (started oneStepRun) world ∧
        statuses world.store.history = [.cancelled, .completed, .running, .running] ∧
        ¬ StatusStays RunStatus.isTerminal world.store.history := by
  obtain ⟨threads, hr⟩ := after_reached .inMemory "wfr_1" engineOnly (answering completedResult)
    (fun _ => trivial) oneStepRun [.execute, .cancel] (by simp [engineOnly])
  have hstatus : statuses (after .inMemory "wfr_1" (answering completedResult) oneStepRun
      [.execute, .cancel]).history = [.cancelled, .completed, .running, .running] := by
    decide +kernel
  refine ⟨rfl, _, hr, hstatus, ?_⟩
  rw [statusStays_iff_statuses, hstatus]
  simp [RunStatus.isTerminal]

end Terminal

section Cancelled

-- The step a run waits for has its entry already, as far as texts go.
def RecordsWaiting (s : RunState) : Prop :=
  ∀ id, s.waitingStepId = some id → id.isText = true → s.stepResults.contains id = true

theorem RecordsWaiting.contains {s : RunState} (h : RecordsWaiting s) (id : Scalar)
    (hw : (s.waiting == id) = true) (ht : id.isText = true) : s.stepResults.contains id = true := by
  obtain ⟨waiting, hwait, hb⟩ := exists_waiting_of_text s id hw ht
  rw [← Dict.contains_congr _ waiting id hb]
  exact h waiting hwait (Scalar.isText_of_beq waiting id hb ht)

theorem recordsWaiting_stored (repository : Repository) (rules : Rules Engine) :
    Stored repository rules RecordsWaiting where
  writes s s' note hs hw id hid ht := by
    rcases Writes.waiting hw with h | h | ⟨stepId, step, -, h, -, hc⟩
    · exact Writes.contains hw id (hs id (by rw [← h, hid]) ht)
    · rw [h] at hid
      cases hid
    · rw [h] at hid
      cases hid
      exact hc
  encode s hs id hid ht := contains_jsonSafe_of_text s id ht (hs id hid ht)

-- A timeout task whose step id is no text never meets a cancelled run that waits for it.
def namedTimeouts : Rules Engine where
  load
    | .timeoutWorkflowEvent stepId, s =>
        s.status = .cancelled → (s.waiting == stepId) = true → stepId.isText = true
    | _, _ => True
  answer _ _ := True

theorem Writes.status_of_cancelled {s s' : RunState} {note : Note}
    (hw : Writes namedTimeouts s s' note) (hs : RecordsWaiting s) (hc : s.status = .cancelled) :
    s'.status = .cancelled := by
  rcases hw.of_terminal (by rw [hc]; rfl) with ⟨-, h⟩ | ⟨stepId, hl, hwait, hfresh⟩
  · exact h
  · -- The task does not look at the status; what stops it is the entry of the step.
    have hrec := hs.contains stepId hwait (hl hc hwait)
    rw [hfresh] at hrec
    cases hrec

-- One more row: its save was made by an operation that holds the row on top, at
-- the version on top, and it counts the version up by one.
def SavesOnTop (rules : Rules Engine) (world world' : World Engine) : Prop :=
  ∃ row rest thread s s' note, world.store.history = row :: rest ∧ thread ∈ world.threads ∧
    thread.held = some (row.version, s) ∧ row.state = jsonSafe s ∧ Writes rules s s' note ∧
    world'.store.history = ⟨row.version + 1, jsonSafe s', note⟩ :: row :: rest

theorem step_saves (repository : Repository) (runId : String) (rules : Rules Engine)
    (P : RunState → Prop) (world world' : World Engine)
    (hinv : Inv (repository.backend Op Result) rules (engineSpec rules) P world)
    (hs : VersionedStore.Step (repository.backend Op Result) (body repository runId) rules world world') :
    world'.store.history = world.store.history ∨ SavesOnTop rules world world' := by
  rcases step_adds _ _ rules _ P world world' hinv hs with
    h | ⟨row, rest, thread, s, s', note, hhist, hm, hheld, hrow, -, hw, -, hnew⟩
  · exact .inl h
  · exact .inr ⟨row, rest, thread, s, s', note, hhist, hm, hheld, hrow, hw, hnew⟩

theorem cancelled_stays (repository : Repository) (runId : String) (info : RunInfo)
    (raw : RawDefinition) (now : Int) (state : RunState) (hstart : startRun info raw now = .ok state)
    (world : World Engine) (hr : Run repository runId namedTimeouts (started state) world) :
    (∀ world', VersionedStore.Step (repository.backend Op Result) (body repository runId) namedTimeouts
        world world' →
      world'.store.history = world.store.history ∨ SavesOnTop namedTimeouts world world') ∧
    StatusStays (· = .cancelled) world.store.history := by
  obtain ⟨definition, -, rfl⟩ := startRun_ok info raw now state hstart
  have hinv := run_inv repository runId namedTimeouts RecordsWaiting
    (recordsWaiting_stored repository _) _ world
    (started_inv repository namedTimeouts _ info definition now fun id h => by cases h) hr
  refine ⟨fun world' hs => step_saves repository runId namedTimeouts _ world world' hinv hs, ?_⟩
  rw [statusStays_iff]
  refine hinv.chain.imp ?_
  intro newer older hl hfinal
  obtain ⟨-, s, s', hp, hw, -, hs, hs'⟩ := hl
  have hold : older.state.status = .cancelled := by simpa using hfinal
  rw [hold, hs']
  rw [hs] at hold
  show s'.status = .cancelled
  exact Writes.status_of_cancelled hw hp hold

-- A run that waits for an event at a step whose id is a text, or is null.
def eventWait (id : Scalar) : Definition := { steps := [{ id := id, type := some .waitForEvent }] }

def eventWaitRun (id : Scalar) : RunState := initialState { id := "wfr_1" } (eventWait id) 0

def waitingResult : Json := .obj [("status", .str "waiting_event")]

-- The timeout task of the step and a second cancel come after the first one.
theorem cancelled_stays_eventWait :
    ∃ world, Run (.sqlAlchemy none) "wfr_1" namedTimeouts (started (eventWaitRun (.str "approve"))) world ∧
      statuses world.store.history = [.cancelled, .cancelled, .waitingEvent, .running] ∧
      StatusStays (· = .cancelled) world.store.history := by
  obtain ⟨threads, hr⟩ := after_reached (.sqlAlchemy none) "wfr_1" namedTimeouts
    (answering waitingResult) (fun _ => trivial) (eventWaitRun (.str "approve"))
    [.execute, .cancel, .timeoutWorkflowEvent (.str "approve"), .cancel] (by simp [namedTimeouts, Scalar.isText])
  have hstatus : statuses (after (.sqlAlchemy none) "wfr_1" (answering waitingResult)
      (eventWaitRun (.str "approve")) [.execute, .cancel, .timeoutWorkflowEvent (.str "approve"), .cancel]).history =
        [.cancelled, .cancelled, .waitingEvent, .running] := by
    decide +kernel
  exact ⟨_, hr, hstatus, (cancelled_stays (.sqlAlchemy none) "wfr_1" { id := "wfr_1" }
    (eventWait (.str "approve")).raw 0 _ rfl _ hr).2⟩

-- With a null id the entry is stored as `"null"`, and the timeout task takes the run
-- out of `cancelled`.
theorem cancelled_then_running :
    startRun { id := "wfr_1" } (eventWait .null).raw 0 = .ok (eventWaitRun .null) ∧
      ∃ world, Run (.sqlAlchemy none) "wfr_1" (Rules.free Engine) (started (eventWaitRun .null)) world ∧
        statuses world.store.history = [.running, .cancelled, .waitingEvent, .running] ∧
        ¬ StatusStays (· = .cancelled) world.store.history := by
  obtain ⟨threads, hr⟩ := after_reached (.sqlAlchemy none) "wfr_1" (Rules.free Engine)
    (answering waitingResult) (fun _ => trivial) (eventWaitRun .null)
    [.execute, .cancel, .timeoutWorkflowEvent .null] (fun _ _ _ => trivial)
  have hstatus : statuses (after (.sqlAlchemy none) "wfr_1" (answering waitingResult)
      (eventWaitRun .null) [.execute, .cancel, .timeoutWorkflowEvent .null]).history =
        [.running, .cancelled, .waitingEvent, .running] := by
    decide +kernel
  refine ⟨rfl, _, hr, hstatus, ?_⟩
  rw [statusStays_iff_statuses, hstatus]
  simp

end Cancelled

end AgenticOrg.Workflows
