import AgenticOrg.Workflows.Branches
import AgenticOrg.Workflows.Runs.Status

namespace AgenticOrg.Workflows

open OrderedDict VersionedStore

-- Everything a save can do to a run that is live after it.
inductive Move (s s' : RunState) (note : Note) : Prop where
  | skipped (stepId step reason) (ha : AtStep s stepId step)
      (hc : checkDependencies step s = some reason)
      (he : s' = s.record step.id (skippedResult reason)) (hn : note.event.settles = false)
  | settled (stepId step known status result) (ha : AtStep s stepId step)
      (hc : checkDependencies step s = none) (hk : NotesBranches s known) (hs : status ≠ .replanned)
      (hr : s'.stepResults =
        branchResults known step result (recordedResult step status result) s.stepResults)
      (hd : s'.definition = s.definition)
      (hw : s'.status = .running ∧ s'.waitingStepId = s.waitingStepId ∨
        s'.status ≠ .running ∧ s'.waitingStepId = some step.id ∧
          (s'.status = .waitingEvent → status = .waitingEvent))
      (hn : note.stepId = some step.id) (hsettles : note.event.settles = true)
  | replanned (stepId step message reply newSteps now) (ha : AtStep s stepId step)
      (hj : Joins s step.id newSteps) (hreply : replanWorkflow s.stepResults.keys reply = .ok newSteps)
      (he : s' = replannedState s step.id message newSteps now) (hn : note.event.settles = false)
  | released (waiting result) (hp : s.status.isPaused = true) (hw : s.waitingStepId = some waiting)
      (he : s' = s.release waiting result .running)
      (hr : result.status = .completed ∨ s.status = .waitingEvent ∧ result.status = .timedOut)
      (hf : result.fallbackTarget = none) (hn : note.event.settles = false)
  | escalated (waiting output) (hs : s.status = .waitingHitl) (hw : s.waitingStepId = some waiting)
      (he : s' = { s with stepResults :=
        s.stepResults.insert waiting { priorResult s waiting with output := output } })
      (hn : note.event.settles = false)

section Inversion

theorem allowedStatus_ne (text : String) (status : StepStatus) (h : allowedStatus text = some status) :
    status ≠ .replanned := by
  have hm := List.mem_of_find?_eq_some h
  rintro rfl
  simp [ALLOWED_STEP_STATUSES] at hm

-- No handler can report a replan.
theorem normalizeStepResult_ne (step : Step) (answer result : Json) (status : StepStatus)
    (h : normalizeStepResult step answer = some (status, result)) : status ≠ .replanned := by
  unfold normalizeStepResult at h
  split at h
  · split at h
    · cases h
      simp
    · split at h
      · rename_i found hf
        cases h
        split at hf
        · exact allowedStatus_ne _ _ hf
        · cases hf
      · cases h
        simp
    · cases h
  · cases h
    simp

theorem pauseOf_event (step : Step) (status : StepStatus) (result : Json) (event : Event)
    (h : pauseOf step status result = some (.waitingEvent, event)) : status = .waitingEvent := by
  unfold pauseOf at h
  split at h
  · cases h
  · split at h
    · cases h
    · split at h
      · assumption
      · cases h

theorem pauseOf_settles (step : Step) (status : StepStatus) (result : Json) (paused : RunStatus)
    (event : Event) (h : pauseOf step status result = some (paused, event)) : event.settles = true := by
  unfold pauseOf at h
  split at h
  · cases h
    rfl
  · split at h
    · cases h
      rfl
    · split at h
      · cases h
        rfl
      · cases h

theorem settle_live (known : Scalar → Bool) (step : Step) (status : StepStatus) (result : Json)
    (s : RunState) (hr : s.status = .running)
    (hl : (settle known step status result s).1.status.isLive = true) :
    (settle known step status result s).1.stepResults =
        branchResults known step result (recordedResult step status result) s.stepResults ∧
      ((settle known step status result s).1.status = .running ∧
          (settle known step status result s).1.waitingStepId = s.waitingStepId ∨
        (settle known step status result s).1.status ≠ .running ∧
          (settle known step status result s).1.waitingStepId = some step.id ∧
          ((settle known step status result s).1.status = .waitingEvent → status = .waitingEvent)) ∧
      (settle known step status result s).2.settles = true := by
  unfold settle at hl ⊢
  by_cases hf : status = .failed ∧ stepAllowsFailure step = false
  · simp only [hf, and_self, if_true] at hl
    cases hl
  · simp only [hf, if_false]
    cases hp : pauseOf step status result with
    | none => exact ⟨rfl, .inl ⟨hr, rfl⟩, rfl⟩
    | some found =>
        obtain ⟨paused, event⟩ := found
        refine ⟨rfl, .inr ⟨?_, rfl, ?_⟩, pauseOf_settles step status result paused event hp⟩
        · rintro rfl
          have hpaused := (pauseOf_some step status result _ event hp).1
          cases hpaused
        · rintro rfl
          exact pauseOf_event step status result event hp

abbrev TextKey (_ : List Step) (key : Scalar) : Prop := key.isText = true

-- The id a paused run is taken on with is the id it waits for.
theorem waiting_eq (s : RunState) (h : Placed TextKey s) (hp : s.status.isPaused = true) (id : Scalar)
    (hw : (s.waiting == id) = true) : s.waitingStepId = some id := by
  obtain ⟨waiting, hwait, hb⟩ := exists_waiting s id hw (h.paused hp)
  have ht := h.waiting waiting hwait
  rw [hwait, Scalar.eq_of_beq_text waiting id ht (Scalar.isText_of_beq id waiting (BEq.symm hb) ht) hb]

theorem Writes.move {s s' : RunState} {note : Note} (hw : Writes branchRules s s' note)
    (h : Placed TextKey s) (hrec : RecordsWaiting s) (hl : s'.status.isLive = true) : Move s s' note := by
  cases hw with
  | skipped stepId step reason ha hc => exact .skipped stepId step reason ha hc rfl rfl
  | settled stepId step known answer status result ha hc hk hn =>
      obtain ⟨hr, hstatus, hsettles⟩ := settle_live known step status result s ha.running hl
      exact .settled stepId step known status result ha hc hk
        (normalizeStepResult_ne step answer result status hn) hr
        (settle_definition known step status result s) hstatus rfl hsettles
  | replanned stepId step message remaining reply newSteps now ha hc he hr hn =>
      exact .replanned stepId step message reply newSteps now ha (hr reply newSteps rfl hn) hn rfl rfl
  | hitlResumed decision hs =>
      have hp : s.status.isPaused = true := by rw [hs]; rfl
      have hdone : (decidedResult s s.waiting decision).status = .completed ∧
          (decidedResult s s.waiting decision).fallbackTarget = none := by
        unfold decidedResult
        dsimp only
        split
        · exact ⟨rfl, rfl⟩
        · exact ⟨rfl, rfl⟩
      exact .released s.waiting _ hp (waiting_eq s h hp s.waiting BEq.rfl) rfl (.inl hdone.1) hdone.2 rfl
  | waitResumed output hs =>
      have hp := isPaused_of_wait _ hs
      exact .released s.waiting _ hp (waiting_eq s h hp s.waiting BEq.rfl) rfl (.inl rfl) rfl rfl
  | eventTimedOut stepId hs hw =>
      have hp : s.status.isPaused = true := by rw [hs]; rfl
      exact .released stepId _ hp (waiting_eq s h hp stepId hw) rfl (.inr ⟨hs, rfl⟩) rfl rfl
  | waitTask stepId key hs hw hload =>
      have hp := isPaused_of_wait _ hs
      have hb : (s.waiting == stepId) = true := by
        cases ht : s.waiting.truthy with
        | true => exact hw ht
        | false => exact hload ht
      exact .released stepId _ hp (waiting_eq s h hp stepId hb) rfl (.inl rfl) rfl rfl
  | eventTask stepId key hfresh hs hw hload =>
      -- The waiting step has its entry, so the task has nothing to do.
      have hc := hrec.contains stepId hw hload
      rw [hfresh] at hc
      cases hc
  | hitlEscalated stepId output key hs hw =>
      have hp : s.status.isPaused = true := by rw [hs]; rfl
      exact .escalated stepId output hs (waiting_eq s h hp stepId hw) rfl rfl
  | _ => cases hl

-- A run is live before it is live again, and after a step has been settled.
theorem Move.live {s s' : RunState} {note : Note} (hm : Move s s' note) : s.status.isLive = true := by
  cases hm with
  | skipped stepId step reason ha => rw [ha.running]; rfl
  | settled stepId step known status result ha => rw [ha.running]; rfl
  | replanned stepId step message reply newSteps now ha => rw [ha.running]; rfl
  | released waiting result hp => simp [RunStatus.isLive, hp]
  | escalated waiting output hs => rw [hs]; rfl

theorem Writes.live_of_settles {rules : Rules Engine} {s s' : RunState} {note : Note}
    (hw : Writes rules s s' note) (hn : note.event.settles = true) : s'.status.isLive = true := by
  cases hw with
  | settled stepId step known answer status result ha =>
      rcases settle_cases known step status result s with
        ⟨-, -, h⟩ | ⟨-, ⟨paused, event, hp, -, h⟩ | h⟩
      · rw [h] at hn
        cases hn
      · rw [h]
        simp [RunStatus.isLive, hp]
      · rw [h, withResults_status, ha.running]
        rfl
  | _ => cases hn

theorem Writes.definition_of_settles {rules : Rules Engine} {s s' : RunState} {note : Note}
    (hw : Writes rules s s' note) (hn : note.event.settles = true) : s'.definition = s.definition := by
  cases hw with
  | settled stepId step known answer status result => exact settle_definition known step status result s
  | _ => cases hn

end Inversion

end AgenticOrg.Workflows
