import AgenticOrg.Workflows.Engine.Writes
import AgenticOrg.Workflows.Results.Lemmas

namespace AgenticOrg.Workflows

open OrderedDict VersionedStore

section Respects

variable (repository : Repository) (runId : String) (rules : Rules Engine) (op : Op)

abbrev Keeps (prog : Prog Engine) (held : Option (Nat × RunState)) : Prop :=
  Respects (repository.backend Op Result) rules (engineSpec rules) op prog held

theorem keeps_done (result : Result) (held : Option (Nat × RunState)) :
    Keeps repository rules op (.done result) held := trivial

theorem keeps_call_execute (held : Option (Nat × RunState)) :
    Keeps repository rules op (.call .execute .done) held := fun _ => trivial

-- A save without a key has nothing to say about duplicates.
theorem keeps_saveState (v : Nat) (s s' : RunState) (note : Note) (next : Copy Engine → Prog Engine)
    (stale failed : Prog Engine) (hkey : note.key = none) (hw : Writes rules s s' note)
    (hnext : ∀ v', Keeps repository rules op (next ⟨some v', s'⟩) (some (v', s')))
    (hstale : Keeps repository rules op stale (some (v, s)))
    (hfailed : Keeps repository rules op failed (some (v, s))) :
    Keeps repository rules op (saveState ⟨some v, s'⟩ note next stale failed) (some (v, s)) :=
  ⟨⟨v, s, rfl, rfl, hw⟩, fun v' => hnext v', fun h => absurd hkey h, hstale, hfailed⟩

theorem keeps_loadState (scope : Repository) (next : Option (Copy Engine) → Prog Engine)
    (failed : Prog Engine) (held : Option (Nat × RunState))
    (hnext : ∀ v s, rules.load op s → Keeps repository rules op (next (some ⟨some v, s⟩)) (some (v, s))) :
    Keeps repository rules op (loadState scope runId failed next) held :=
  fun v s hl => hnext v s hl

theorem keeps_peekState (scope : Repository) (next : Option (Copy Engine) → Prog Engine)
    (failed : Prog Engine) (held : Option (Nat × RunState))
    (hnext : ∀ copy, Keeps repository rules op (next (some copy)) held) :
    Keeps repository rules op (peekState scope runId failed next) held :=
  fun copy => hnext copy

theorem keeps_staleStateResult (held : Option (Nat × RunState)) :
    Keeps repository rules op (staleStateResult repository runId) held :=
  keeps_peekState repository runId rules op repository _ _ held fun _ => trivial

theorem keeps_checkpoint (v : Nat) (s s' : RunState) (note : Note) (next : Copy Engine → Prog Engine)
    (hkey : note.key = none) (hw : Writes rules s s' note)
    (hnext : ∀ v', Keeps repository rules op (next ⟨some v', s'⟩) (some (v', s'))) :
    Keeps repository rules op (checkpoint repository runId ⟨some v, s'⟩ note next) (some (v, s)) :=
  keeps_saveState repository rules op v s s' note next _ _ hkey hw hnext
    (keeps_staleStateResult repository runId rules op _) trivial

-- The state a driver goes on with: running, sorted, and done up to here.
structure Driving (s : RunState) (front rest : List Scalar) : Prop where
  running : s.status = .running
  sorted : topologicalSort s.definition.steps = .ok (front ++ rest)
  done : ∀ id ∈ front, s.stepResults.contains id = true

theorem Driving.advance (s s' : RunState) (front rest : List Scalar) (stepId : Scalar)
    (hd : Driving s front (stepId :: rest)) (hstatus : s'.status = s.status)
    (hdef : s'.definition = s.definition)
    (hgrow : ∀ id, s.stepResults.contains id = true → s'.stepResults.contains id = true)
    (hself : s'.stepResults.contains stepId = true) : Driving s' (front ++ [stepId]) rest := by
  refine ⟨by rw [hstatus, hd.running], by simpa [hdef] using hd.sorted, ?_⟩
  intro id hid
  rcases List.mem_append.mp hid with hid | hid
  · exact hgrow id (hd.done id hid)
  · rwa [List.mem_singleton.mp hid]

theorem Driving.skip (s : RunState) (front rest : List Scalar) (stepId : Scalar)
    (hd : Driving s front (stepId :: rest)) (hc : s.stepResults.contains stepId = true) :
    Driving s (front ++ [stepId]) rest :=
  hd.advance s s front rest stepId rfl rfl (fun _ hid => hid) hc

theorem Driving.atStep (s : RunState) (front rest : List Scalar) (stepId : Scalar) (step : Step)
    (hd : Driving s front (stepId :: rest)) (hf : s.stepResults.contains stepId = false)
    (hl : (buildStepIndex s.definition.steps).get? stepId = some step) : AtStep s stepId step :=
  ⟨hd.running, ⟨front, rest, hd.sorted, hd.done⟩, hf, hl⟩

theorem AtStep.mem (s : RunState) (stepId : Scalar) (step : Step) (ha : AtStep s stepId step) :
    step ∈ s.definition.steps ∧ (step.id == stepId) = true :=
  mem_of_lookup s.definition.steps stepId step ha.lookup

-- Whatever the sort puts before the step has a result when the driver has come to the step.
theorem AtStep.contains_of_edge (s : RunState) (stepId : Scalar) (step : Step) (ha : AtStep s stepId step)
    (hn : (canonIds s.definition.steps).Nodup) (earlier : Scalar)
    (he : Precedence.Edge (sortEdges s.definition.steps) earlier.canon step.id.canon) :
    s.stepResults.contains earlier = true := by
  obtain ⟨front, back, horder, hdone⟩ := ha.place
  rw [(Scalar.beq_iff _ _).mp ha.mem.2] at he
  obtain ⟨found, hf, hb⟩ := behind_of_edge _ hn _ horder stepId earlier he front back rfl
  rw [← Dict.contains_congr _ found earlier hb]
  exact hdone found hf

theorem Driving.record (s : RunState) (front rest : List Scalar) (stepId : Scalar) (step : Step)
    (result : StepResult) (hd : Driving s front (stepId :: rest)) (ha : AtStep s stepId step) :
    Driving (s.record step.id result) (front ++ [stepId]) rest := by
  refine hd.advance s (s.record step.id result) front rest stepId rfl rfl ?_ ?_
  · intro id hid
    simp [hid]
  · simp [ha.mem.2]

theorem Driving.settle (s : RunState) (front rest : List Scalar) (stepId : Scalar) (step : Step)
    (known : Scalar → Bool) (status : StepStatus) (result : Json)
    (hd : Driving s front (stepId :: rest)) (ha : AtStep s stepId step)
    (he : (settle known step status result s).2 = .stepCheckpointed) :
    Driving (settle known step status result s).1 (front ++ [stepId]) rest := by
  apply hd.advance s _ front rest stepId
  · rw [settle_checkpointed known step status result s he]
    rfl
  · exact settle_definition known step status result s
  · exact contains_settle known step status result s
  · rw [← Dict.contains_congr _ step.id stepId ha.mem.2]
    exact contains_settle_self known step status result s

section Fragments

theorem keeps_whileLive (ranStep : Bool) (copy : Copy Engine) (next : Prog Engine)
    (held : Option (Nat × RunState)) (hnext : Keeps repository rules op next held) :
    Keeps repository rules op (whileLive repository runId ranStep copy next) held := by
  unfold whileLive
  split
  · apply keeps_peekState
    intro latest
    dsimp only
    split
    · exact hnext
    · exact keeps_done repository rules op _ held
  · exact hnext

theorem keeps_operatorHalt (v : Nat) (s : RunState) (next : Prog Engine)
    (hnext : Keeps repository rules op next (some (v, s))) :
    Keeps repository rules op (operatorHalt s next) (some (v, s)) := by
  refine ⟨trivial, ?_⟩
  intro override _
  cases override with
  | none => exact hnext
  | some found => exact keeps_done repository rules op _ _

theorem keeps_unlessTimedOut (v : Nat) (s : RunState) (stepId : Scalar) (report : RunState → Result)
    (next : Prog Engine) (hr : s.status = .running)
    (hnext : Keeps repository rules op next (some (v, s))) :
    Keeps repository rules op (unlessTimedOut repository runId ⟨some v, s⟩ stepId report next)
      (some (v, s)) := by
  unfold unlessTimedOut
  split
  · exact hnext
  · refine ⟨trivial, ?_⟩
    intro now _
    dsimp only
    split
    · exact keeps_checkpoint repository runId rules op v s _ _ _ rfl (.runTimedOut s stepId hr)
        fun _ => trivial
    · exact hnext

theorem keeps_skipStep (v : Nat) (s : RunState) (stepId : Scalar) (step : Step) (reason : String)
    (next : Copy Engine → Prog Engine) (ha : AtStep s stepId step)
    (hc : checkDependencies step s = some reason)
    (hnext : ∀ v', Keeps repository rules op (next ⟨some v', s.record step.id (skippedResult reason)⟩)
      (some (v', s.record step.id (skippedResult reason)))) :
    Keeps repository rules op (skipStep repository runId ⟨some v, s⟩ step reason next) (some (v, s)) :=
  keeps_checkpoint repository runId rules op v s _ _ next rfl (.skipped s stepId step reason ha hc) hnext

theorem keeps_failStep (v : Nat) (s : RunState) (stepId : Scalar) (step : Step) (message : String)
    (report : RunState → Result) (ha : AtStep s stepId step) (hc : checkDependencies step s = none) :
    Keeps repository rules op (failStep repository runId ⟨some v, s⟩ step message report) (some (v, s)) :=
  keeps_checkpoint repository runId rules op v s _ _ _ rfl (.raised s stepId step message ha hc)
    fun _ => trivial

theorem keeps_retryWithBackoff (v : Nat) (s : RunState) (step : Step) (maxRetries : Nat)
    (next : Except String Json → Prog Engine) (left : Nat) (hasks : Asks (some s) (.executeStep step s))
    (hnext : ∀ answer, Keeps repository rules op (next answer) (some (v, s))) :
    Keeps repository rules op (retryWithBackoff step s maxRetries next left) (some (v, s)) := by
  induction left with
  | zero => exact ⟨hasks, fun answer _ => hnext _⟩
  | succ left ih =>
      refine ⟨hasks, ?_⟩
      intro answer _
      show Keeps repository rules op
        (if attemptFailed answer then retryWithBackoff step s maxRetries next left else next answer) _
      split
      · exact ih
      · exact hnext answer

theorem keeps_executeWithRetry (v : Nat) (s : RunState) (step : Step)
    (next : Except String Json → Prog Engine) (hasks : Asks (some s) (.executeStep step s))
    (hnext : ∀ answer, Keeps repository rules op (next answer) (some (v, s))) :
    Keeps repository rules op (executeWithRetry step s next) (some (v, s)) := by
  unfold executeWithRetry
  dsimp only
  split
  · exact keeps_retryWithBackoff repository rules op v s step _ next _ hasks hnext
  · exact ⟨hasks, fun answer _ => hnext answer⟩

theorem keeps_runStep (v : Nat) (s : RunState) (stepId : Scalar) (step : Step) (known : Scalar → Bool)
    (raised : String → Prog Engine) (settled : Copy Engine → Event → Json → Prog Engine)
    (ha : AtStep s stepId step) (hc : checkDependencies step s = none) (hk : NotesBranches s known)
    (hraised : ∀ message, Keeps repository rules op (raised message) (some (v, s)))
    (hsettled : ∀ v' status result,
      Keeps repository rules op
        (settled ⟨some v', (settle known step status result s).1⟩
          (settle known step status result s).2 result)
        (some (v', (settle known step status result s).1))) :
    Keeps repository rules op (runStep repository runId known ⟨some v, s⟩ step raised settled)
      (some (v, s)) := by
  apply keeps_executeWithRetry
  · exact ⟨rfl, hc, stepId, ha⟩
  · intro answer
    cases answer with
    | error message => exact hraised message
    | ok answer =>
        dsimp only
        cases hn : normalizeStepResult step answer with
        | none => exact keeps_done repository rules op _ _
        | some found =>
            obtain ⟨status, result⟩ := found
            exact keeps_checkpoint repository runId rules op v s _ _ _ rfl
              (.settled s stepId step known answer status result ha hc hk hn)
              fun v' => hsettled v' status result

theorem keeps_complete (v : Nat) (s : RunState) (order : List Scalar) (hd : Driving s order []) :
    Keeps repository rules op (complete repository runId ⟨some v, s⟩) (some (v, s)) := by
  refine ⟨trivial, ?_⟩
  intro now _
  exact keeps_checkpoint repository runId rules op v s _ _ _ rfl
    (.completed s now order hd.running (by simpa using hd.sorted) hd.done) fun _ => trivial

theorem keeps_attemptReplan (v : Nat) (s : RunState) (stepId : Scalar) (step : Step)
    (order : List Scalar) (message : String) (refused replanned : Prog Engine)
    (ha : AtStep s stepId step) (hc : checkDependencies step s = none)
    (he : replanEnabled s = true)
    (hrefused : Keeps repository rules op refused (some (v, s)))
    (hreplanned : ∀ held, Keeps repository rules op replanned held) :
    Keeps repository rules op
      (attemptReplan repository runId ⟨some v, s⟩ order step message refused replanned) (some (v, s)) := by
  refine ⟨trivial, ?_⟩
  intro reply hreply
  cases reply with
  | error message => exact hrefused
  | ok entries =>
      dsimp only
      cases hn : replanWorkflow s.stepResults.keys entries with
      | error message => exact hrefused
      | ok newSteps =>
          refine ⟨trivial, ?_⟩
          intro now _
          exact keeps_checkpoint repository runId rules op v s _ _ _ rfl
            (.replanned s stepId step message _ entries newSteps now ha hc he hreply hn)
            fun v' => hreplanned _

end Fragments

section Drivers

-- Along the sorted order, with what is in front of the place done already.
theorem keeps_executeLoop (order : List Scalar) (v : Nat) (s : RunState) (front rest : List Scalar)
    (ranStep : Bool) (hd : Driving s front rest) :
    Keeps repository rules op
      (executeLoop repository runId (buildStepIndex s.definition.steps) order rest ranStep ⟨some v, s⟩)
      (some (v, s)) := by
  induction rest generalizing v s front ranStep with
  | nil => exact keeps_complete repository runId rules op v s front (by simpa using hd)
  | cons stepId rest ih =>
      rw [executeLoop]
      split
      · rename_i hc
        exact ih v s (front ++ [stepId]) ranStep (hd.skip s front rest stepId hc)
      · rename_i hc
        rw [Bool.not_eq_true] at hc
        apply keeps_whileLive
        apply keeps_operatorHalt
        apply keeps_unlessTimedOut repository runId rules op v s stepId _ _ hd.running
        cases hl : (buildStepIndex s.definition.steps).get? stepId with
        | none => exact keeps_done repository rules op _ _
        | some step =>
            have ha := hd.atStep s front rest stepId step hc hl
            cases hdep : checkDependencies step s with
            | some reason =>
                simp only [hdep]
                apply keeps_skipStep repository runId rules op v s stepId step reason _ ha hdep
                intro v'
                exact ih v' _ (front ++ [stepId]) ranStep (hd.record s front rest stepId step _ ha)
            | none =>
                simp only [hdep]
                apply keeps_runStep repository runId rules op v s stepId step _ _ _ ha hdep (.inl rfl)
                · intro message
                  split
                  · rename_i he
                    exact keeps_attemptReplan repository runId rules op v s stepId step order message
                      _ _ ha hdep he
                      (keeps_failStep repository runId rules op v s stepId step message _ ha hdep)
                      fun held => keeps_call_execute repository rules op held
                  · exact keeps_failStep repository runId rules op v s stepId step message _ ha hdep
                · intro v' status result
                  split
                  · rename_i he
                    have hnext := hd.settle s front rest stepId step _ status result ha he
                    have hgo := ih v' _ (front ++ [stepId]) true hnext
                    rwa [settle_definition] at hgo
                  · exact keeps_done repository rules op _ _

theorem keeps_executeNextLoop (v : Nat) (s : RunState) (front rest : List Scalar)
    (hd : Driving s front rest) :
    Keeps repository rules op
      (executeNextLoop repository runId (buildStepIndex s.definition.steps) rest ⟨some v, s⟩)
      (some (v, s)) := by
  induction rest generalizing v s front with
  | nil => exact keeps_complete repository runId rules op v s front (by simpa using hd)
  | cons stepId rest ih =>
      rw [executeNextLoop]
      split
      · rename_i hc
        exact ih v s (front ++ [stepId]) (hd.skip s front rest stepId hc)
      · rename_i hc
        rw [Bool.not_eq_true] at hc
        apply keeps_unlessTimedOut repository runId rules op v s stepId _ _ hd.running
        cases hl : (buildStepIndex s.definition.steps).get? stepId with
        | none => exact keeps_done repository rules op _ _
        | some step =>
            have ha := hd.atStep s front rest stepId step hc hl
            cases hdep : checkDependencies step s with
            | some reason =>
                simp only [hdep]
                apply keeps_skipStep repository runId rules op v s stepId step reason _ ha hdep
                intro v'
                exact ih v' _ (front ++ [stepId]) (hd.record s front rest stepId step _ ha)
            | none =>
                simp only [hdep]
                apply keeps_operatorHalt
                apply keeps_runStep repository runId rules op v s stepId step _ _ _ ha hdep (.inr rfl)
                · intro message
                  exact keeps_failStep repository runId rules op v s stepId step message _ ha hdep
                · intro v' status result
                  split
                  · exact keeps_done repository rules op _ _
                  · exact keeps_done repository rules op _ _
                  · exact keeps_done repository rules op _ _

theorem keeps_drive (next : List Scalar → Copy Engine → Prog Engine) (held : Option (Nat × RunState))
    (hnext : ∀ v s order, Driving s [] order →
      Keeps repository rules op (next order ⟨some v, s⟩) (some (v, s))) :
    Keeps repository rules op (drive repository runId next) held := by
  apply keeps_loadState
  intro v s _
  show Keeps repository rules op (if s.status = .running then _ else _) _
  split
  · rename_i hr
    cases ho : topologicalSort s.definition.steps with
    | error message => exact keeps_done repository rules op _ _
    | ok order => exact hnext v s order ⟨hr, ho, fun id hid => absurd hid List.not_mem_nil⟩
  · exact keeps_done repository rules op _ _

theorem keeps_execute (held : Option (Nat × RunState)) :
    Keeps repository rules op (execute repository runId) held :=
  keeps_drive repository runId rules op _ held fun v s order hd =>
    keeps_executeLoop repository runId rules op order v s [] order false hd

theorem keeps_executeNext (held : Option (Nat × RunState)) :
    Keeps repository rules op (executeNext repository runId) held :=
  keeps_drive repository runId rules op _ held fun v s order hd =>
    keeps_executeNextLoop repository runId rules op v s [] order hd

end Drivers

section Transitions

-- After a save of an operation outside the drivers nothing is saved from the same copy.
theorem keeps_saveOrRaise (v : Nat) (s s' : RunState) (note : Note) (next : Copy Engine → Prog Engine)
    (hw : Writes rules s s' note) (hnext : ∀ copy held, Keeps repository rules op (next copy) held) :
    Keeps repository rules op (saveOrRaise ⟨some v, s'⟩ note next) (some (v, s)) :=
  ⟨⟨v, s, rfl, rfl, hw⟩, fun _ => hnext _ _, fun _ => hnext _ _, trivial, trivial⟩

theorem keeps_resumeFromHitl (decision : Json) (held : Option (Nat × RunState)) :
    Keeps repository rules op (resumeFromHitl repository runId decision) held := by
  apply keeps_loadState
  intro v s _
  dsimp only
  split
  · exact keeps_done repository rules op _ _
  · rename_i hs
    rw [not_not] at hs
    split
    · exact keeps_done repository rules op _ _
    · rename_i hw
      rw [Bool.not_eq_false] at hw
      split
      · refine ⟨trivial, ?_⟩
        intro now _
        exact keeps_saveOrRaise repository rules op v s _ _ _ (.hitlRejected s decision _ now hs hw)
          fun _ _ => trivial
      · exact keeps_saveOrRaise repository rules op v s _ _ _ (.hitlResumed s decision hs hw)
          fun _ held => keeps_call_execute repository rules op held

theorem keeps_resumeFromWait (stepResult : Json) (held : Option (Nat × RunState)) :
    Keeps repository rules op (resumeFromWait repository runId stepResult) held := by
  apply keeps_loadState
  intro v s _
  dsimp only
  split
  · exact keeps_done repository rules op _ _
  · rename_i hs
    split
    · exact keeps_done repository rules op _ _
    · rename_i hw
      rw [Bool.not_eq_false] at hw
      exact keeps_saveOrRaise repository rules op v s _ _ _ (.waitResumed s _ (by tauto) hw)
        fun _ held => keeps_call_execute repository rules op held

theorem keeps_timeoutEventWait (stepId : Scalar) (held : Option (Nat × RunState)) :
    Keeps repository rules op (timeoutEventWait repository runId stepId) held := by
  apply keeps_loadState
  intro v s _
  dsimp only
  split
  · exact keeps_done repository rules op _ _
  · rename_i hs
    rw [not_or, not_not, Bool.not_eq_false] at hs
    exact keeps_saveOrRaise repository rules op v s _ _ _ (.eventTimedOut s stepId hs.1 hs.2)
      fun _ held => keeps_call_execute repository rules op held

theorem keeps_cancel (held : Option (Nat × RunState)) :
    Keeps repository rules .cancel (cancel repository runId) held := by
  apply keeps_loadState
  intro v s hl
  refine ⟨trivial, ?_⟩
  intro now _
  exact keeps_saveOrRaise repository rules .cancel v s _ _ _ (.cancelled s now hl) fun _ _ => trivial

theorem keeps_driveEngineAndSync (next : Result → Prog Engine) (held : Option (Nat × RunState))
    (hnext : ∀ result, Keeps repository rules op (next result) none) :
    Keeps repository rules op (driveEngineAndSync repository runId next) held :=
  fun result => keeps_peekState repository runId rules op _ _ _ none fun _ => hnext result

theorem keeps_resumeWorkflowWait (stepId : Scalar) (held : Option (Nat × RunState)) :
    Keeps repository rules (.resumeWorkflowWait stepId) (resumeWorkflowWait repository runId stepId)
      held := by
  apply keeps_loadState
  intro v s hl
  dsimp only
  split
  · exact keeps_done repository rules _ _ _
  · split
    · exact keeps_done repository rules _ _ _
    · rename_i hs
      split
      · exact keeps_done repository rules _ _ _
      · rename_i hw
        rw [not_and, Bool.not_eq_false] at hw
        exact keeps_saveOrRaise repository rules _ v s _ _ _
          (.waitTask s stepId _ (by tauto) hw hl)
          fun _ held => keeps_driveEngineAndSync repository runId rules _ _ held fun _ => trivial

theorem keeps_timeoutWorkflowEvent (stepId : Scalar) :
    Keeps repository rules (.timeoutWorkflowEvent stepId) (timeoutWorkflowEvent repository runId stepId)
      none := by
  refine ⟨trivial, ?_⟩
  intro record _
  dsimp only
  split
  · exact keeps_done repository rules _ _ _
  · apply keeps_loadState
    intro v s hl
    dsimp only
    split
    · exact keeps_done repository rules _ _ _
    · rename_i hfresh
      rw [Bool.not_eq_true] at hfresh
      split
      · exact keeps_done repository rules _ _ _
      · rename_i hs
        split
        · exact keeps_done repository rules _ _ _
        · rename_i hw
          rw [Bool.not_eq_false] at hw
          exact keeps_saveOrRaise repository rules _ v s _ _ _
            (.eventTask s stepId _ hfresh hs hw hl)
            fun _ held => keeps_driveEngineAndSync repository runId rules _ _ held fun _ => trivial

theorem keeps_timeoutWorkflowHitl (stepId : Scalar) (held : Option (Nat × RunState)) :
    Keeps repository rules op (timeoutWorkflowHitl repository runId stepId) held := by
  apply keeps_loadState
  intro v s _
  dsimp only
  split
  · exact keeps_done repository rules op _ _
  · rename_i hs
    rw [not_or, not_not, Bool.not_eq_false] at hs
    refine ⟨trivial, ?_⟩
    intro now _
    refine ⟨trivial, ?_⟩
    intro parsed _
    dsimp only
    split
    · split
      · refine ⟨trivial, ?_⟩
        intro hours _
        dsimp only
        split
        · exact keeps_done repository rules op _ _
        · exact keeps_saveOrRaise repository rules op v s _ _ _
            (.hitlEscalated s stepId _ _ hs.1 hs.2) fun _ _ => trivial
      · exact keeps_saveOrRaise repository rules op v s _ _ _
          (.hitlTask s stepId _ now _ hs.1 hs.2) fun _ _ => trivial
    · exact keeps_done repository rules op _ _

theorem keeps_resumeHaltedWorkflow (held : Option (Nat × RunState)) :
    Keeps repository rules op (resumeHaltedWorkflow repository runId) held := by
  apply keeps_loadState
  intro v s _
  dsimp only
  split
  · apply keeps_driveEngineAndSync
    intro result
    split
    · exact keeps_done repository rules op _ _
    · exact keeps_done repository rules op _ _
  · exact keeps_done repository rules op _ _

theorem keeps_body (op : Op) : Keeps repository rules op (body repository runId op) none := by
  cases op with
  | execute => exact keeps_execute repository runId rules _ none
  | executeNext => exact keeps_executeNext repository runId rules _ none
  | resumeFromHitl decision => exact keeps_resumeFromHitl repository runId rules _ decision none
  | resumeFromWait stepResult => exact keeps_resumeFromWait repository runId rules _ stepResult none
  | resumeFromEvent eventData => exact keeps_resumeFromWait repository runId rules _ _ none
  | timeoutEventWait stepId => exact keeps_timeoutEventWait repository runId rules _ stepId none
  | cancel => exact keeps_cancel repository runId rules none
  | resumeWorkflowWait stepId => exact keeps_resumeWorkflowWait repository runId rules stepId none
  | timeoutWorkflowEvent stepId => exact keeps_timeoutWorkflowEvent repository runId rules stepId
  | timeoutWorkflowHitl stepId => exact keeps_timeoutWorkflowHitl repository runId rules _ stepId none
  | resumeHaltedWorkflow => exact keeps_resumeHaltedWorkflow repository runId rules _ none

end Transitions

end Respects

end AgenticOrg.Workflows
