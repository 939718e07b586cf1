import AgenticOrg.Workflows.Runs.Keys
import AgenticOrg.Workflows.Runs.Status

namespace AgenticOrg.Workflows

open OrderedDict VersionedStore Precedence

section Reply

theorem validateReplanned_ok (completed seen : List Scalar) (entries : List Entry) (steps : List Step)
    (h : validateReplanned completed seen entries = .ok steps) :
    validateSteps (seen ++ completed) entries = .ok steps := by
  induction entries generalizing seen steps with
  | nil => simpa [validateReplanned, validateSteps] using h
  | cons entry rest ih =>
      cases entry with
      | notDict typeName => cases h
      | noId => cases h
      | step step =>
          rw [validateReplanned] at h
          split at h
          · cases h
          rename_i hcompleted
          split at h
          · cases h
          rename_i hseen
          split at h
          · rename_i hvalid
            cases hr : validateReplanned completed (step.id :: seen) rest with
            | error message =>
                rw [hr] at h
                cases h
            | ok tail =>
                rw [hr] at h
                cases h
                rw [Bool.not_eq_true] at hcompleted hseen
                have htail := ih (step.id :: seen) tail hr
                rw [List.cons_append] at htail
                simp [validateSteps, List.any_append, hcompleted, hseen, hvalid, htail]
          · cases h

-- What `replan_workflow` has checked of the steps it returns.
theorem replanWorkflow_ok (completed : List Scalar) (reply : List Entry) (newSteps : List Step)
    (h : replanWorkflow completed reply = .ok newSteps) :
    (canonIds newSteps).Nodup ∧ (∀ new ∈ newSteps, new.stepType.valid = true) ∧
      ∀ new ∈ newSteps, ∀ id ∈ completed, id.truthy = true → id.canon ≠ new.id.canon := by
  unfold replanWorkflow at h
  split at h
  · cases h
  · obtain ⟨-, hn, ht, hf⟩ := (validateSteps_ok_iff _ _ newSteps).mp (validateReplanned_ok _ _ _ _ h)
    refine ⟨hn, ht, ?_⟩
    intro new hnew id hid htruthy
    exact hf new hnew id (List.mem_append_right _ (List.mem_filter.mpr ⟨hid, htruthy⟩))

-- Emptiness is a matter of what `==` sees.
def Canon.truthy : Canon → Bool
  | .null => false
  | .num value => value ≠ 0
  | .infinity _ => true
  | .str text => text ≠ ""

theorem truthy_canon (scalar : Scalar) : scalar.truthy = scalar.canon.truthy := by
  cases scalar with
  | bool value => cases value <;> rfl
  | int value => simp [Scalar.truthy, Scalar.canon, Canon.truthy]
  | _ => rfl

end Reply

section Fit

variable (s : RunState) (failed : Scalar) (newSteps : List Step)

-- What the reply has to meet besides the checks of `replan_workflow`: no new step has
-- the id of the failed step, or of an earlier one whose id is empty; its dependencies
-- are a list; and none waits for itself, around any corner.
structure FitsIn : Prop where
  fresh : ∀ new ∈ newSteps, (failed == new.id) = false ∧
    ∀ step ∈ s.definition.steps, s.stepResults.contains step.id = true → step.id.truthy = false →
      (step.id == new.id) = false
  iterable : ∀ new ∈ newSteps, new.dependsOn.isSome = true
  noLoop : ∀ new ∈ newSteps,
    ¬ Relation.TransGen (Edge (sortEdges (replannedSteps s failed newSteps))) new.id.canon new.id.canon

-- A definition that the parser lets through and the sort can order.
def Executable (definition : Definition) : Prop :=
  parse definition.raw = .ok definition ∧ ∃ order, topologicalSort definition.steps = .ok order

theorem executable_iff (definition : Definition) :
    Executable definition ↔
      Accepted definition.steps ∧ ∃ order, topologicalSort definition.steps = .ok order := by
  rw [Executable, parse_ok_iff]
  simp

theorem canonIds_replannedSteps :
    canonIds (replannedSteps s failed newSteps) =
      canonIds (s.definition.steps.filter
        fun step => s.stepResults.contains step.id || failed == step.id) ++ canonIds newSteps := by
  simp [canonIds, replannedSteps, Function.comp_def]

-- An edge between steps that were there before was there before.
theorem edge_replannedSteps (u v : Canon)
    (he : Edge (sortEdges (replannedSteps s failed newSteps)) u v) :
    u ∈ canonIds newSteps ∨ v ∈ canonIds newSteps ∨ Edge (sortEdges s.definition.steps) u v := by
  have hnode : ∀ id, named (replannedSteps s failed newSteps) id = true →
      id.canon ∈ canonIds newSteps ∨ named s.definition.steps id = true := by
    intro id hid
    rw [named_iff, canonIds_replannedSteps, List.mem_append] at hid
    rcases hid with hid | hid
    · obtain ⟨step, hs, hc⟩ := (mem_canonIds _ _).mp hid
      exact .inr ((named_iff _ _).mpr ((mem_canonIds _ _).mpr ⟨step, (List.mem_filter.mp hs).1, hc⟩))
    · exact .inl hid
  rcases (mem_sortEdges _ u v).mp he with ⟨step, hs, dep, hd, hn, rfl, rfl⟩ |
    ⟨⟨step, hs, target, ht, hn, rfl, rfl⟩, hne⟩
  · rcases mem_replannedSteps s failed newSteps step hs with ⟨hold, -⟩ | ⟨new, hnew, rfl⟩
    · rcases hnode dep hn with hdep | hdep
      · exact .inl hdep
      · exact .inr (.inr ((mem_sortEdges _ _ _).mpr (.inl ⟨step, hold, dep, hd, hdep, rfl, rfl⟩)))
    · exact .inr (.inl ((mem_canonIds _ _).mpr ⟨new, hnew, rfl⟩))
  · rcases mem_replannedSteps s failed newSteps step hs with ⟨hold, -⟩ | ⟨new, hnew, rfl⟩
    · rcases hnode (.str target) hn with htarget | htarget
      · exact .inr (.inl htarget)
      · exact .inr (.inr ((mem_sortEdges _ _ _).mpr
          (.inr ⟨⟨step, hold, target, ht, htarget, rfl, rfl⟩, hne⟩)))
    · exact .inl ((mem_canonIds _ _).mpr ⟨new, hnew, rfl⟩)

variable (reply : List Entry) (hacc : Accepted s.definition.steps)
  (hsort : ∃ order, topologicalSort s.definition.steps = .ok order)
  (hreply : replanWorkflow s.stepResults.keys reply = .ok newSteps)

include hacc hreply in
theorem nodup_replannedSteps (hfits : FitsIn s failed newSteps) :
    (canonIds (replannedSteps s failed newSteps)).Nodup := by
  obtain ⟨hn, -, hf⟩ := replanWorkflow_ok _ _ _ hreply
  rw [canonIds_replannedSteps]
  refine List.Nodup.append (hacc.nodup.sublist (List.filter_sublist.map _)) hn ?_
  intro node hkept hnew
  obtain ⟨step, hs, rfl⟩ := (mem_canonIds _ _).mp hkept
  obtain ⟨new, hnew, hc⟩ := (mem_canonIds _ _).mp hnew
  obtain ⟨hm, hdone⟩ := List.mem_filter.mp hs
  obtain ⟨hfailed, hempty⟩ := hfits.fresh new hnew
  have hsame : (step.id == new.id) = true := (Scalar.beq_iff _ _).mpr hc.symm
  rcases Bool.or_eq_true_iff.mp hdone with hdone | hdone
  · -- The check of the reply sees the keys of the results, as long as they are not empty.
    obtain ⟨key, hk, hb⟩ := (Dict.contains_iff s.stepResults step.id).mp hdone
    have hcanon := (Scalar.beq_iff key step.id).mp hb
    cases ht : step.id.truthy with
    | false =>
        rw [hempty step hm hdone ht] at hsame
        cases hsame
    | true =>
        refine hf new hnew key hk ?_ (hcanon.trans hc.symm)
        rw [truthy_canon, hcanon, ← truthy_canon, ht]
  · rw [BEq.trans hdone hsame] at hfailed
    cases hfailed

include hacc hsort hreply in
theorem accepted_replannedSteps (hfits : FitsIn s failed newSteps) :
    Accepted (replannedSteps s failed newSteps) ∧
      ∃ order, topologicalSort (replannedSteps s failed newSteps) = .ok order := by
  obtain ⟨-, htypes, -⟩ := replanWorkflow_ok _ _ _ hreply
  have hn := nodup_replannedSteps s failed newSteps reply hacc hreply hfits
  have hi : ∀ step ∈ replannedSteps s failed newSteps, step.dependsOn.isSome = true := by
    intro step hs
    rcases mem_replannedSteps s failed newSteps step hs with ⟨hm, -⟩ | ⟨new, hnew, rfl⟩
    · exact hacc.iterable step hm
    · exact hfits.iterable new hnew
  have hacyclic : Acyclic (sortEdges (replannedSteps s failed newSteps)) := by
    refine Acyclic.extend _ (sortEdges s.definition.steps) (· ∈ canonIds newSteps)
      ((topologicalSort_ok_iff _ hacc.nodup hacc.iterable).mp hsort)
      (edge_replannedSteps s failed newSteps) ?_
    intro node hnode
    obtain ⟨new, hnew, rfl⟩ := (mem_canonIds _ _).mp hnode
    exact hfits.noLoop new hnew
  refine ⟨⟨hn, ?_, hi, dependencyGraph_acyclic _ hacyclic⟩, (topologicalSort_ok_iff _ hn hi).mpr hacyclic⟩
  intro step hs
  rcases mem_replannedSteps s failed newSteps step hs with ⟨hm, -⟩ | ⟨new, hnew, rfl⟩
  · exact hacc.types step hm
  · exact htypes new hnew

theorem fitsIn_of_accepted (hin : named s.definition.steps failed = true)
    (hacc' : Accepted (replannedSteps s failed newSteps))
    (hsort' : ∃ order, topologicalSort (replannedSteps s failed newSteps) = .ok order) :
    FitsIn s failed newSteps := by
  have hmem : ∀ new ∈ newSteps,
      { new with replanned := true } ∈ replannedSteps s failed newSteps := by
    intro new hnew
    exact List.mem_append_right _ (List.mem_map.mpr ⟨new, hnew, rfl⟩)
  have hkept : ∀ step ∈ s.definition.steps,
      (s.stepResults.contains step.id || failed == step.id) = true → ∀ new ∈ newSteps,
        (step.id == new.id) = false := by
    intro step hs hdone new hnew
    have hn := hacc'.nodup
    rw [canonIds_replannedSteps, List.nodup_append] at hn
    rw [Scalar.beq_eq_false_iff]
    exact hn.2.2 _ ((mem_canonIds _ _).mpr ⟨step, List.mem_filter.mpr ⟨hs, hdone⟩, rfl⟩) _
      ((mem_canonIds _ _).mpr ⟨new, hnew, rfl⟩)
  refine ⟨?_, ?_, ?_⟩
  · intro new hnew
    refine ⟨?_, fun step hs hdone _ => hkept step hs (by simp [hdone]) new hnew⟩
    obtain ⟨step, hs, hb⟩ := List.any_eq_true.mp hin
    rw [← BEq.congr_left hb]
    exact hkept step hs (by simp [BEq.symm hb]) new hnew
  · intro new hnew
    exact hacc'.iterable { new with replanned := true } (hmem new hnew)
  · intro new _
    exact (topologicalSort_ok_iff _ hacc'.nodup hacc'.iterable).mp hsort' new.id.canon

include hacc hsort hreply in
theorem executable_replanned_iff (hin : named s.definition.steps failed = true) (message : String)
    (now : Int) :
    Executable (replannedState s failed message newSteps now).definition ↔ FitsIn s failed newSteps := by
  rw [executable_iff]
  constructor
  · rintro ⟨hacc', hsort'⟩
    exact fitsIn_of_accepted s failed newSteps hin hacc' hsort'
  · exact accepted_replannedSteps s failed newSteps reply hacc hsort hreply

end Fit

section Runs

-- Every reply that is accepted fits in with the steps that are kept.
def fittingReplies : Rules Engine where
  load _ _ := True
  answer := RepliesFit FitsIn

-- Only a replan touches the definition.
theorem Writes.definition {rules : Rules Engine} {s s' : RunState} {note : Note}
    (hw : Writes rules s s' note) :
    (s'.definition = s.definition ∧ s'.replanCount = s.replanCount) ∨
    ∃ stepId step message remaining reply newSteps now, AtStep s stepId step ∧
      rules.answer (.replanReply s step remaining message) (Except.ok reply) ∧
      replanWorkflow s.stepResults.keys reply = .ok newSteps ∧
      s' = replannedState s step.id message newSteps now := by
  cases hw with
  | settled stepId step known answer status result ha =>
      rcases settle_cases known step status result s with
        ⟨-, -, h⟩ | ⟨-, ⟨paused, event, -, -, h⟩ | h⟩ <;> rw [h] <;> exact .inl ⟨rfl, rfl⟩
  | replanned stepId step message remaining reply newSteps now ha hc he hr hn =>
      exact .inr ⟨stepId, step, message, remaining, reply, newSteps, now, ha, hr, hn, rfl⟩
  | _ => exact .inl ⟨rfl, rfl⟩

structure Planned (s : RunState) : Prop where
  accepted : Accepted s.definition.steps
  sorted : 0 < s.replanCount → ∃ order, topologicalSort s.definition.steps = .ok order

theorem AtStep.sorted (s : RunState) (stepId : Scalar) (step : Step) (ha : AtStep s stepId step) :
    ∃ order, topologicalSort s.definition.steps = .ok order := by
  obtain ⟨front, back, h, -⟩ := ha.place
  exact ⟨_, h⟩

theorem planned_stored (repository : Repository) : Stored repository fittingReplies Planned where
  writes s s' note h hw := by
    rcases Writes.definition hw with ⟨hd, hc⟩ | ⟨stepId, step, message, remaining, reply, newSteps,
      now, ha, hr, hn, rfl⟩
    · exact ⟨by rw [hd]; exact h.accepted, by rw [hd, hc]; exact h.sorted⟩
    · obtain ⟨hacc, hsort⟩ := accepted_replannedSteps s step.id newSteps reply h.accepted ha.sorted hn
        (hr reply newSteps rfl hn)
      exact ⟨hacc, fun _ => hsort⟩
  encode s h := ⟨h.accepted, h.sorted⟩

-- Replans keep the definition executable as long as the replies fit, and a reply that
-- does not fit makes it one that the parser would refuse or the sort cannot order.
theorem replans_executable (repository : Repository) (runId : String) (info : RunInfo)
    (raw : RawDefinition) (now : Int) (state : RunState) (hstart : startRun info raw now = .ok state)
    (world : World Engine) (hr : Run repository runId fittingReplies (started state) world) :
    (∀ row ∈ world.store.history, 0 < row.state.replanCount → Executable row.state.definition) ∧
    ∀ thread ∈ world.threads, ∀ v s, thread.held = some (v, s) →
      ∀ stepId step, AtStep s stepId step →
      ∀ reply newSteps, replanWorkflow s.stepResults.keys reply = .ok newSteps →
      ∀ message now', Executable (replannedState s step.id message newSteps now').definition ↔
        FitsIn s step.id newSteps := by
  obtain ⟨definition, hparse, rfl⟩ := startRun_ok info raw now state hstart
  have hplanned : Planned (initialState info definition now) := by
    refine ⟨((parse_ok_iff raw definition).mp hparse).2, ?_⟩
    intro hcount
    cases hcount
  have hinv := run_inv repository runId fittingReplies Planned (planned_stored repository) _ world
    (started_inv repository fittingReplies _ info definition now hplanned) hr
  refine ⟨?_, ?_⟩
  · intro row hm hcount
    have hrow := hinv.rows row hm
    exact (executable_iff _).mpr ⟨hrow.accepted, hrow.sorted hcount⟩
  · intro thread hm v s hheld stepId step ha reply newSteps hreply message now'
    have hs := ((hinv.threads thread hm).held v s hheld).1
    exact executable_replanned_iff s step.id newSteps reply hs.accepted ha.sorted hreply ha.named
      message now'

def fetching : Definition := { steps := [{ id := .str "fetch" }], replanOnFailure := true }

def fetchingRun : RunState := initialState { id := "wfr_1" } fetching 0

-- A step that fails and a model that proposes to go on with a step of the given id.
def proposing (id : String) : (query : Query) → query.Answer
  | .executeStep _ _ => (.error "connection refused" : Except String Json)
  | .replanReply _ _ _ _ => (.ok [.step { id := .str id }] : Except String (List Entry))
  | query => answering completedResult query

theorem replans_executable_fetching :
    ∃ world, Run .inMemory "wfr_1" fittingReplies (started fetchingRun) world ∧
      world.threads.map (fun thread => thread.held.isSome) = [true] ∧
      Executable (replannedState fetchingRun (.str "fetch") "connection refused"
        [{ id := .str "fetch_again" }] 0).definition := by
  have hr := midway_reached .inMemory "wfr_1" fittingReplies (fun _ => true)
    (answering completedResult) (answering_allowed fittingReplies FitsIn rfl completedResult)
    (fun _ _ _ => trivial) fetchingRun [.execute] [0]
  obtain ⟨thread, hthreads, hheld⟩ : ∃ thread : Thread Engine,
      (midway .inMemory "wfr_1" (fun _ => true) (answering completedResult) fetchingRun [.execute]
        [0]).threads = [thread] ∧ thread.held = some (1, fetchingRun) := ⟨_, rfl, rfl⟩
  refine ⟨_, hr, by rw [hthreads, List.map_singleton, hheld]; rfl, ?_⟩
  have hat : AtStep fetchingRun (.str "fetch") { id := .str "fetch" } :=
    ⟨rfl, ⟨[], [], rfl, by simp⟩, rfl, rfl⟩
  have hiff := (replans_executable .inMemory "wfr_1" { id := "wfr_1" } fetching.raw 0 fetchingRun rfl
    _ hr).2 thread (by simp [hthreads]) 1 fetchingRun hheld (.str "fetch") _ hat
    [.step { id := .str "fetch_again" }] [{ id := .str "fetch_again" }] rfl "connection refused" 0
  refine hiff.mpr ⟨?_, ?_, ?_⟩
  · intro new hnew
    rw [List.mem_singleton.mp hnew]
    refine ⟨rfl, ?_⟩
    intro step hs hdone
    cases hdone
  · intro new hnew
    rw [List.mem_singleton.mp hnew]
    rfl
  · intro new _ hloop
    have hedges : sortEdges (replannedSteps fetchingRun (.str "fetch") [{ id := .str "fetch_again" }]) = [] :=
      rfl
    rw [hedges] at hloop
    obtain ⟨next, hedge, -⟩ := Relation.TransGen.head'_iff.mp hloop
    exact absurd hedge List.not_mem_nil

-- The id of the failed step is free for the reply, and stands in the definition twice.
theorem replan_repeats_failed :
    startRun { id := "wfr_1" } fetching.raw 0 = .ok fetchingRun ∧
      ∃ world, Run .inMemory "wfr_1" (Rules.free Engine) (started fetchingRun) world ∧
        ∃ row ∈ world.store.history, row.note.actor = .replan ∧
          stepIds row.state.definition.steps = [.str "fetch", .str "fetch"] ∧
          ¬ Executable row.state.definition := by
  obtain ⟨threads, hr⟩ := after_reached .inMemory "wfr_1" (Rules.free Engine) (proposing "fetch")
    (fun _ => trivial) fetchingRun [.execute] (fun _ _ _ => trivial)
  obtain ⟨row, rest, hhist, hactor, hids, hparse⟩ : ∃ row rest,
      (after .inMemory "wfr_1" (proposing "fetch") fetchingRun [.execute]).history = row :: rest ∧
        row.note.actor = .replan ∧
        stepIds row.state.definition.steps = [.str "fetch", .str "fetch"] ∧
        parse row.state.definition.raw = .error "Duplicate step id: fetch" :=
    ⟨_, _, rfl, rfl, rfl, rfl⟩
  refine ⟨rfl, _, hr, row, by simp [hhist], hactor, hids, ?_⟩
  rintro ⟨hok, -⟩
  rw [hparse] at hok
  cases hok

end Runs

end AgenticOrg.Workflows
