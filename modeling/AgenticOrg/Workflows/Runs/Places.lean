import AgenticOrg.Workflows.Runs.Keys

namespace AgenticOrg.Workflows

open OrderedDict VersionedStore

-- Step ids that are texts, and keys and paths of a kind that takes in every text.
section Places

variable (ok : List Step → Scalar → Prop)

structure Steady (keys : List Scalar) (steps : List Step) : Prop where
  texts : TextIds steps
  keys : ∀ key ∈ keys, ok steps key
  paths : ∀ step ∈ steps, ∀ path ∈ step.paths, ok steps path

-- What a run keeps: keys of the kind, and a text for the step it waits for.
structure Placed (s : RunState) : Prop where
  steady : Steady ok s.stepResults.keys s.definition.steps
  waiting : ∀ id, s.waitingStepId = some id → id.isText = true
  paused : s.status.isPaused = true → s.waitingStepId ≠ none

variable (hok : ∀ steps key, key.isText = true → ok steps key)

include hok in
theorem Steady.insert (steps : List Step) (results : Dict Scalar StepResult)
    (h : Steady ok results.keys steps) (id : Scalar) (result : StepResult) (ht : id.isText = true) :
    Steady ok (results.insert id result).keys steps := by
  refine ⟨h.texts, ?_, h.paths⟩
  intro key hk
  rcases Dict.mem_keys_insert results id result key hk with rfl | hk
  · exact hok steps key ht
  · exact h.keys key hk

include hok in
theorem Steady.branch (steps : List Step) (results : Dict Scalar StepResult)
    (h : Steady ok results.keys steps) (step : Step) (hs : step ∈ steps) (known : Scalar → Bool)
    (result : Json) (entry : StepResult) :
    Steady ok (branchResults known step result entry results).keys steps := by
  refine ⟨h.texts, ?_, h.paths⟩
  intro key hk
  rcases mem_keys_branchResults known step result entry results key hk with hk | rfl | hpath
  · exact h.keys key hk
  · exact hok steps step.id (h.texts step hs)
  · exact h.paths step hs key ((mem_paths step key).mpr hpath)

-- The step a paused run waits for, whatever it is compared with.
theorem Placed.waiting_text (s : RunState) (h : Placed ok s) (hp : s.status.isPaused = true) (id : Scalar)
    (hw : (s.waiting == id) = true) : id.isText = true := by
  obtain ⟨waiting, hwait, hb⟩ := exists_waiting s id hw (h.paused hp)
  exact Scalar.isText_of_beq id waiting (BEq.symm hb) (h.waiting waiting hwait)

include hok in
theorem Placed.release (s : RunState) (h : Placed ok s) (id : Scalar) (result : StepResult)
    (ht : id.isText = true) (status : RunStatus) (hp : status.isPaused = false) :
    Placed ok (s.release id result status) := by
  refine ⟨h.steady.insert ok hok _ _ id result ht, ?_, ?_⟩
  · intro other ho
    cases ho
  · intro hpaused
    rw [release_status, hp] at hpaused
    cases hpaused

include hok in
theorem Placed.recorded (s : RunState) (h : Placed ok s) (stepId : Scalar) (step : Step)
    (ha : AtStep s stepId step) (result : StepResult) (status : RunStatus)
    (hp : status.isPaused = false) : Placed ok { s.record step.id result with status := status } := by
  refine ⟨h.steady.insert ok hok _ _ step.id result (h.steady.texts step ha.mem.1), h.waiting, ?_⟩
  intro hpaused
  rw [hp] at hpaused
  cases hpaused

include hok in
theorem Placed.settled (s : RunState) (h : Placed ok s) (stepId : Scalar) (step : Step)
    (ha : AtStep s stepId step) (known : Scalar → Bool) (status : StepStatus) (result : Json) :
    Placed ok (settle known step status result s).1 := by
  have hbranch := h.steady.branch ok hok _ _ step ha.mem.1 known result (recordedResult step status result)
  rcases settle_cases known step status result s with
    ⟨-, -, he⟩ | ⟨-, ⟨paused, event, hp, -, he⟩ | he⟩
  · rw [he]
    exact h.recorded ok hok s stepId step ha _ .failed rfl
  · rw [he]
    refine ⟨hbranch, ?_, fun _ => by simp⟩
    intro id hid
    cases hid
    exact h.steady.texts step ha.mem.1
  · rw [he]
    exact ⟨hbranch, h.waiting, h.paused⟩

include hok in
theorem Placed.writes (rules : Rules Engine) (s s' : RunState) (note : Note) (h : Placed ok s)
    (hresume : ∀ stepId, rules.load (.resumeWorkflowWait stepId) s → s.status.isPaused = true →
      s.waiting.truthy = false → stepId.isText = true)
    (htimeout : ∀ stepId, rules.load (.timeoutWorkflowEvent stepId) s → stepId.isText = true)
    (hreplan : ∀ step remaining message reply newSteps, (∃ stepId, AtStep s stepId step) →
      rules.answer (.replanReply s step remaining message) (Except.ok reply) →
      replanWorkflow s.stepResults.keys reply = .ok newSteps →
      Steady ok s.stepResults.keys (replannedSteps s step.id newSteps))
    (hw : Writes rules s s' note) : Placed ok s' := by
  cases hw with
  | runTimedOut stepId hr => exact ⟨h.steady, h.waiting, fun hp => by cases hp⟩
  | skipped stepId step reason ha =>
      exact h.recorded ok hok s stepId step ha (skippedResult reason) s.status (by rw [ha.running]; rfl)
  | raised stepId step message ha => exact h.recorded ok hok s stepId step ha _ .failed rfl
  | settled stepId step known answer status result ha =>
      exact h.settled ok hok s stepId step ha known status result
  | completed now order hr => exact ⟨h.steady, h.waiting, fun hp => by cases hp⟩
  | replanned stepId step message remaining reply newSteps now ha hc he hr hn =>
      have hsteady := hreplan step remaining message reply newSteps ⟨stepId, ha⟩ hr hn
      refine ⟨hsteady.insert ok hok _ _ step.id _ (h.steady.texts step ha.mem.1), h.waiting, ?_⟩
      intro hpaused
      have hrun : s.status.isPaused = true := hpaused
      rw [ha.running] at hrun
      cases hrun
  | hitlRejected decision error now hs =>
      have ht := h.waiting_text ok s (by rw [hs]; rfl) s.waiting BEq.rfl
      have hr := h.release ok hok s s.waiting (rejectedResult decision) ht .failed rfl
      exact ⟨hr.steady, hr.waiting, hr.paused⟩
  | hitlResumed decision hs =>
      have ht := h.waiting_text ok s (by rw [hs]; rfl) s.waiting BEq.rfl
      exact h.release ok hok s s.waiting _ ht .running rfl
  | waitResumed output hs =>
      have ht := h.waiting_text ok s (isPaused_of_wait _ hs) s.waiting BEq.rfl
      exact h.release ok hok s s.waiting _ ht .running rfl
  | eventTimedOut stepId hs hw =>
      exact h.release ok hok s stepId _ (h.waiting_text ok s (by rw [hs]; rfl) stepId hw) .running rfl
  | cancelled now hl => exact ⟨h.steady, h.waiting, fun hp => by cases hp⟩
  | waitTask stepId key hs hw hl =>
      have hp := isPaused_of_wait _ hs
      refine h.release ok hok s stepId _ ?_ .running rfl
      cases ht : s.waiting.truthy with
      | false => exact hresume stepId hl hp ht
      | true => exact h.waiting_text ok s hp stepId (hw ht)
  | eventTask stepId key hfresh hs hw hl => exact h.release ok hok s stepId _ (htimeout stepId hl) .running rfl
  | hitlEscalated stepId output key hs hw =>
      have ht := h.waiting_text ok s (by rw [hs]; rfl) stepId hw
      exact ⟨h.steady.insert ok hok _ _ stepId _ ht, h.waiting, h.paused⟩
  | hitlTask stepId error now key hs hw =>
      have ht := h.waiting_text ok s (by rw [hs]; rfl) stepId hw
      have hr := h.release ok hok s stepId (hitlTimedOutResult s stepId) ht .failed rfl
      exact ⟨hr.steady, hr.waiting, hr.paused⟩

end Places

end AgenticOrg.Workflows
