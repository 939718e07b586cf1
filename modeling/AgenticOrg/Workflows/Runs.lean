import AgenticOrg.Workflows.Engine.Theorems

namespace AgenticOrg.Workflows

open OrderedDict VersionedStore

-- The state store right after `start_run`, with no operation on its way.
def started (state : RunState) : World Engine := World.init state startNote (some state)

-- Any interleaving of any operations on the run, under `rules` on their loads and answers.
def Run (repository : Repository) (runId : String) (rules : Rules Engine) :
    World Engine → World Engine → Prop :=
  Reaches (repository.backend Op Result) (body repository runId) rules

-- A rule on the model that replans: the steps that are taken over fit in.
def RepliesFit (fits : RunState → Scalar → List Step → Prop) : (query : Query) → query.Answer → Prop
  | .replanReply s failed _ _, reply =>
      ∀ entries newSteps, reply = (Except.ok entries : Except String (List Entry)) →
        replanWorkflow s.stepResults.keys entries = .ok newSteps → fits s failed.id newSteps
  | _, _ => True

abbrev Stored (repository : Repository) (rules : Rules Engine) (P : RunState → Prop) : Prop :=
  Preserved (repository.backend Op Result) (engineSpec rules) P

section Start

theorem startRun_ok (info : RunInfo) (raw : RawDefinition) (now : Int) (state : RunState)
    (h : startRun info raw now = .ok state) :
    ∃ definition, parse raw = .ok definition ∧ state = initialState info definition now := by
  unfold startRun at h
  cases hp : parse raw with
  | error message =>
      rw [hp] at h
      cases h
  | ok definition =>
      rw [hp] at h
      cases h
      exact ⟨definition, rfl, rfl⟩

theorem jsonSafe_of_text (state : RunState)
    (h : ∀ key ∈ state.stepResults.keys, key.isText = true) : jsonSafe state = state := by
  have hkeys : state.stepResults.mapKeys Scalar.jsonKey = state.stepResults :=
    Dict.mapKeys_eq_self _ _ fun key hk => Scalar.jsonKey_of_isText key (h key hk)
  simp only [jsonSafe, hkeys]

theorem started_inv (repository : Repository) (rules : Rules Engine) (P : RunState → Prop)
    (info : RunInfo) (definition : Definition) (now : Int)
    (hp : P (initialState info definition now)) :
    Inv (repository.backend Op Result) rules (engineSpec rules) P
      (started (initialState info definition now)) := by
  refine init_inv (repository.backend Op Result) rules (engineSpec rules) P _ startNote _ ?_ ?_ hp
  · exact jsonSafe_of_text _ fun key hk => absurd hk List.not_mem_nil
  · cases repository <;> rfl

theorem run_inv (repository : Repository) (runId : String) (rules : Rules Engine)
    (P : RunState → Prop) (hP : Stored repository rules P) (world world' : World Engine)
    (hinv : Inv (repository.backend Op Result) rules (engineSpec rules) P world)
    (hr : Run repository runId rules world world') :
    Inv (repository.backend Op Result) rules (engineSpec rules) P world' :=
  reaches_inv _ _ rules _ P (keeps_body repository runId rules) hP world world' hinv hr

end Start

section Json

theorem contains_jsonSafe (state : RunState) (id : Scalar) :
    (jsonSafe state).stepResults.contains id = state.stepResults.keys.any (·.jsonKey == id) :=
  Dict.contains_mapKeys Scalar.jsonKey state.stepResults id

-- A text key is found again after the state has been stored.
theorem contains_jsonSafe_of_text (state : RunState) (id : Scalar) (ht : id.isText = true)
    (hc : state.stepResults.contains id = true) :
    (jsonSafe state).stepResults.contains id = true := by
  obtain ⟨key, hk, hb⟩ := (Dict.contains_iff state.stepResults id).mp hc
  rw [contains_jsonSafe, List.any_eq_true]
  refine ⟨key, hk, ?_⟩
  rwa [Scalar.jsonKey_of_isText key (Scalar.isText_of_beq key id hb ht)]

end Json

section Waiting

variable (s : RunState) (id : Scalar) (hw : (s.waiting == id) = true)

include hw

theorem exists_waiting (hn : s.waitingStepId ≠ none) :
    ∃ waiting, s.waitingStepId = some waiting ∧ (waiting == id) = true := by
  obtain ⟨waiting, hwait⟩ := Option.ne_none_iff_exists'.mp hn
  have hb : (waiting == id) = true := by simpa [RunState.waiting, hwait] using hw
  exact ⟨waiting, hwait, hb⟩

-- A missing `waiting_step_id` reads as null, which is no text.
theorem exists_waiting_of_text (ht : id.isText = true) :
    ∃ waiting, s.waitingStepId = some waiting ∧ (waiting == id) = true := by
  refine exists_waiting s id hw ?_
  intro hnone
  have hnull : (Scalar.null == id) = true := by simpa [RunState.waiting, hnone] using hw
  have htext := Scalar.isText_of_beq .null id hnull ht
  cases htext

end Waiting

theorem isPaused_of_wait (status : RunStatus) (h : status = .waitingDelay ∨ status = .waitingEvent) :
    status.isPaused = true := by
  rcases h with rfl | rfl
  · rfl
  · rfl

section Writes

variable {rules : Rules Engine} {s s' : RunState} {note : Note}

-- No save takes a result away.
theorem Writes.contains (hw : Writes rules s s' note) (id : Scalar)
    (hc : s.stepResults.contains id = true) : s'.stepResults.contains id = true := by
  cases hw with
  | settled => exact contains_settle _ _ _ _ _ id hc
  | replanned => simp [replannedState, hc]
  | _ => simp [hc]

-- A save leaves the waiting step alone, forgets it, or pauses at the step it records.
theorem Writes.waiting (hw : Writes rules s s' note) :
    s'.waitingStepId = s.waitingStepId ∨ s'.waitingStepId = none ∨
      ∃ stepId step, AtStep s stepId step ∧ s'.waitingStepId = some step.id ∧
        s'.status.isPaused = true ∧ s'.stepResults.contains step.id = true := by
  cases hw with
  | settled stepId step known answer status result ha =>
      have hself := contains_settle_self known step status result s
      rcases settle_cases known step status result s with
        ⟨-, -, h⟩ | ⟨-, ⟨paused, event, hp, -, h⟩ | h⟩
      · exact .inl (by rw [h]; rfl)
      · rw [h] at hself ⊢
        exact .inr (.inr ⟨stepId, step, ha, rfl, hp, hself⟩)
      · exact .inl (by rw [h]; rfl)
  | hitlRejected => exact .inr (.inl rfl)
  | hitlResumed => exact .inr (.inl rfl)
  | waitResumed => exact .inr (.inl rfl)
  | eventTimedOut => exact .inr (.inl rfl)
  | waitTask => exact .inr (.inl rfl)
  | eventTask => exact .inr (.inl rfl)
  | hitlTask => exact .inr (.inl rfl)
  | _ => exact .inl rfl

end Writes

section Alone

-- Answers for a run without surprises: every handler returns the same result.
def answering (result : Json) : (query : Query) → query.Answer
  | .now => (0 : Int)
  | .operatorOverride _ => (none : Option Override)
  | .executeStep _ _ => (.ok result : Except String Json)
  | .replanReply _ _ _ _ => (.error "No LLM backend available for re-planning" : Except String (List Entry))
  | .markTimedOut _ => (some .timedOut : Option ListenerStatus)
  | .floatOf _ => (none : Option Rat)
  | .uuids _ => true

-- They never replan, so they keep every rule on replans.
theorem answering_allowed (rules : Rules Engine) (fits : RunState → Scalar → List Step → Prop)
    (h : rules.answer = RepliesFit fits) (result : Json) (query : Query) :
    rules.answer query (answering result query) := by
  rw [h]
  cases query with
  | replanReply s failed remaining error =>
      intro entries newSteps h
      cases h
  | _ => trivial

-- The store after the operations have run one by one.
def after (repository : Repository) (runId : String) (answer : (query : Query) → query.Answer)
    (state : RunState) (ops : List Op) : Store Engine :=
  runAll (repository.backend Op Result) (body repository runId) answer (started state).store ops

theorem after_reached (repository : Repository) (runId : String) (rules : Rules Engine)
    (answer : (query : Query) → query.Answer) (ha : ∀ query, rules.answer query (answer query))
    (state : RunState) (ops : List Op) (hl : ∀ op ∈ ops, ∀ s, rules.load op s) :
    ∃ threads, Run repository runId rules (started state) ⟨after repository runId answer state ops, threads⟩ :=
  runAll_reaches _ _ rules answer ha ops hl (started state)

-- The operations on their way, after they have taken the given turns.
def midway (repository : Repository) (runId : String) (allowed : Op → Bool)
    (answer : (query : Query) → query.Answer) (state : RunState) (ops : List Op) (turns : List Nat) :
    World Engine :=
  interleave (repository.backend Op Result) (body repository runId) allowed answer turns
    ⟨(started state).store, ops.map fun op => ⟨op, body repository runId op, [], none⟩⟩

theorem midway_reached (repository : Repository) (runId : String) (rules : Rules Engine)
    (allowed : Op → Bool) (answer : (query : Query) → query.Answer)
    (ha : ∀ query, rules.answer query (answer query))
    (hl : ∀ op, allowed op = true → ∀ s, rules.load op s) (state : RunState) (ops : List Op)
    (turns : List Nat) :
    Run repository runId rules (started state)
      (midway repository runId allowed answer state ops turns) :=
  (starts_reaches _ _ rules ops (started state)).trans
    (interleave_reaches _ _ rules allowed answer ha hl turns _)

def Op.isExecute : Op → Bool
  | .execute => true
  | _ => false

end Alone

end AgenticOrg.Workflows
