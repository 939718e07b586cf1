import AgenticOrg.Workflows.Branches.Moves
import AgenticOrg.Workflows.Runs.Replans

namespace AgenticOrg.Workflows

open OrderedDict VersionedStore Precedence

section Entries

variable (s s' : RunState) (id other : Scalar)

theorem Ran.contains (h : Ran s id) : s.stepResults.contains id = true := by
  unfold Ran at h
  rw [← Dict.isSome_get?]
  cases hg : s.stepResults.get? id with
  | none =>
      rw [hg] at h
      cases h
  | some entry => rfl

theorem done_congr (h : (id == other) = true) : Done s id ↔ Done s other := by
  unfold Done statusOf
  rw [Dict.get?_congr _ id other h]

theorem ran_congr (h : (id == other) = true) : Ran s id ↔ Ran s other := by
  unfold Ran
  rw [Dict.get?_congr _ id other h]

theorem done_of_get? (h : s'.stepResults.get? id = s.stepResults.get? id) : Done s' id ↔ Done s id := by
  unfold Done statusOf
  rw [h]

theorem ran_of_get? (h : s'.stepResults.get? id = s.stepResults.get? id) : Ran s' id ↔ Ran s id := by
  unfold Ran
  rw [h]

-- A completed step has been run.
theorem Done.ran (h : Done s id) : Ran s id := by
  unfold Done statusOf at h
  unfold Ran
  cases hg : s.stepResults.get? id with
  | none =>
      rw [hg] at h
      cases h
  | some entry =>
      rw [hg] at h
      have hs : entry.status = .completed := by simpa using h
      simp [StepResult.ran, hs]

theorem Done.contains (h : Done s id) : s.stepResults.contains id = true := h.ran.contains

theorem ran_recordedResult (known : Scalar → Bool) (step : Step) (status : StepStatus) (result : Json)
    (hs : status ≠ .replanned) :
    (branchEntry known step result (recordedResult step status result)).ran = true := by
  have hbase : (recordedResult step status result).ran = true := by
    unfold StepResult.ran recordedResult stateResultFromStepResult
    cases (result.get "stubbed").truthy <;> simp [hs]
  unfold branchEntry
  split
  · exact hbase
  · exact hbase

end Entries

section Ordered

-- A dependency that has not completed and never will.
def Blocked (s : RunState) (dep : Scalar) : Prop :=
  ¬ Done s dep ∧ (∀ waiting, s.waitingStepId = some waiting → (waiting == dep) = false) ∧
    (s.stepResults.contains dep = true ∨ named s.definition.steps dep = false)

-- What holds of a run while it is live: whatever has been run was run behind the steps it
-- depends on, and a condition that still decides about a step has been run or never will be.
structure Ordered (s : RunState) : Prop where
  idle : s.status = .running → s.waitingStepId = none
  waits : ∀ id, s.waitingStepId = some id → Ran s id ∧ (s.status = .waitingEvent → ¬ Done s id)
  deps : ∀ step ∈ s.definition.steps, Ran s step.id → ∀ dep ∈ step.deps,
    Done s dep ∨ s.stepResults.contains dep = true ∧ FallsTo s.definition.steps dep step.id
  plain : ∀ condition target, Names s.definition.steps condition target →
    s.stepResults.contains target.id = false → Plain s.definition.steps condition →
    s.stepResults.contains condition.id = true →
      Ran s condition.id ∨ ∃ dep ∈ condition.deps, Blocked s dep
  recorded : ∀ id entry target, s.stepResults.get? id = some entry →
    entry.fallbackTarget = some target →
      ∃ step ∈ s.definition.steps, (step.id == id) = true ∧ fallbackTarget step = some target

variable (s s' : RunState)

theorem Ordered.fallsTo (h : Ordered s) (step : Step) (source : Scalar)
    (hs : source ∈ sourcesOf step s) : FallsTo s.definition.steps source step.id := by
  rcases mem_sourcesOf step s source hs with hm | ⟨-, hr⟩
  · obtain ⟨found, hf, rfl, ht⟩ := mem_fallbackSources step.id source s.definition.steps hm
    exact ⟨found, hf, BEq.rfl, ht⟩
  · obtain ⟨target, ht, hb⟩ := (Option.any_eq_true _ _).mp hr
    obtain ⟨entry, hg, he⟩ := Option.bind_eq_some_iff.mp ht
    obtain ⟨found, hf, hfb, hft⟩ := h.recorded source entry target hg he
    exact ⟨found, hf, hfb, by rw [hft]; exact hb⟩

-- What a step that may run depends on.
theorem Ordered.deps_of_none (h : Ordered s) (step : Step) (hc : checkDependencies step s = none)
    (dep : Scalar) (hd : dep ∈ step.deps) :
    Done s dep ∨ s.stepResults.contains dep = true ∧ FallsTo s.definition.steps dep step.id := by
  obtain ⟨hsources, hdeps⟩ := checkDependencies_none step s hc
  rcases hdeps dep hd with hany | hdone
  · obtain ⟨source, hm, hb⟩ := List.any_eq_true.mp hany
    obtain ⟨found, hf, hfb, ht⟩ := h.fallsTo s step source hm
    refine .inr ⟨?_, found, hf, BEq.trans hfb hb, ht⟩
    rw [← Dict.contains_congr _ source dep hb]
    exact hsources source hm
  · exact .inl hdone

-- What a plain step that is skipped depends on.
theorem Ordered.blocked_of_some (h : Ordered s) (hn : (canonIds s.definition.steps).Nodup)
    (stepId : Scalar) (step : Step) (ha : AtStep s stepId step) (hp : Plain s.definition.steps step)
    (reason : String) (hc : checkDependencies step s = some reason) : ∃ dep ∈ step.deps, Blocked s dep := by
  have hsources : sourcesOf step s = [] := by
    rw [List.eq_nil_iff_forall_not_mem]
    intro source hm
    exact hp.fallback source (h.fallsTo s step source hm)
  obtain ⟨dep, hd, hne⟩ := checkDependencies_some step s reason hsources hc
  refine ⟨dep, hd, hne, ?_, ?_⟩
  · intro waiting hw
    rw [h.idle ha.running] at hw
    cases hw
  · cases hnamed : named s.definition.steps dep with
    | false => exact .inr rfl
    | true =>
        -- A dependency that is a step stands in front, and there everything has a result.
        have hedge : Edge (sortEdges s.definition.steps) dep.canon step.id.canon :=
          (mem_sortEdges _ _ _).mpr (.inl ⟨step, ha.mem.1, dep, hd, hnamed, rfl, rfl⟩)
        exact .inl (ha.contains_of_edge s stepId step hn dep hedge)

end Ordered

section Turns

variable (s s' : RunState) (stepId : Scalar) (step : Step)

-- The results after a turn of `step`: new at the step, and perhaps a skip at a path.
structure Grows : Prop where
  definition : s'.definition = s.definition
  contains : ∀ id, s.stepResults.contains id = true → s'.stepResults.contains id = true
  elsewhere : ∀ id, (step.id == id) = false →
    s'.stepResults.get? id = s.stepResults.get? id ∨
      s.stepResults.contains id = false ∧
        (∃ other ∈ s.definition.steps, ∃ path ∈ other.paths, (path == id) = true) ∧
        s'.stepResults.get? id = some (skippedResult "branch_not_taken")

theorem Grows.ran_iff (hg : Grows s s' step) (id : Scalar) (hne : (step.id == id) = false) :
    Ran s' id ↔ Ran s id := by
  rcases hg.elsewhere id hne with h | ⟨hc, -, h⟩
  · exact ran_of_get? s s' id h
  · constructor
    · intro hr
      rw [Ran, h] at hr
      cases hr
    · intro hr
      rw [hr.contains] at hc
      cases hc

theorem Grows.done_iff (hg : Grows s s' step) (id : Scalar) (hne : (step.id == id) = false) :
    Done s' id ↔ Done s id := by
  rcases hg.elsewhere id hne with h | ⟨hc, -, h⟩
  · exact done_of_get? s s' id h
  · constructor
    · intro hd
      rw [Done, statusOf, h] at hd
      cases hd
    · intro hd
      rw [hd.contains] at hc
      cases hc

variable (ha : AtStep s stepId step)

include ha in
theorem AtStep.ne_of_contains (id : Scalar) (hc : s.stepResults.contains id = true) :
    (step.id == id) = false := by
  cases hb : step.id == id with
  | false => rfl
  | true =>
      rw [← Dict.contains_congr _ step.id id hb, ha.fresh_self] at hc
      cases hc

include ha in
theorem Grows.done (hg : Grows s s' step) (id : Scalar) (hd : Done s id) : Done s' id :=
  (hg.done_iff s s' step id (ha.ne_of_contains s stepId step id hd.contains)).mpr hd

include ha in
theorem Grows.blocked (hg : Grows s s' step) (hw : s'.waitingStepId = none ∨ s'.waitingStepId = some step.id)
    (dep : Scalar) (hb : Blocked s dep) : Blocked s' dep := by
  have hne : (step.id == dep) = false := by
    rcases hb.2.2 with hc | hn
    · exact ha.ne_of_contains s stepId step dep hc
    · cases hb' : step.id == dep with
      | false => rfl
      | true =>
          rw [← named_congr _ step.id dep hb', ha.named] at hn
          cases hn
  refine ⟨?_, ?_, ?_⟩
  · rw [hg.done_iff s s' step dep hne]
    exact hb.1
  · intro waiting hwaiting
    rcases hw with hw | hw
    · rw [hw] at hwaiting
      cases hwaiting
    · rw [hw] at hwaiting
      cases hwaiting
      exact hne
  · rw [hg.definition]
    exact hb.2.2.imp (hg.contains dep) id

include ha in
-- A turn keeps the order as far as the step itself is in order.
theorem Ordered.turn (h : Ordered s) (hn : (canonIds s.definition.steps).Nodup) (hg : Grows s s' step)
    (hidle : s'.status = .running → s'.waitingStepId = none)
    (hwait : s'.waitingStepId = none ∨ s'.waitingStepId = some step.id ∧ Ran s' step.id ∧
      (s'.status = .waitingEvent → ¬ Done s' step.id))
    (hdeps : Ran s' step.id → ∀ dep ∈ step.deps,
      Done s dep ∨ s.stepResults.contains dep = true ∧ FallsTo s.definition.steps dep step.id)
    (hplain : Plain s.definition.steps step → Ran s' step.id ∨ ∃ dep ∈ step.deps, Blocked s dep)
    (hrec : ∀ entry target, s'.stepResults.get? step.id = some entry →
      entry.fallbackTarget = some target → fallbackTarget step = some target) : Ordered s' := by
  have hwaiting : s'.waitingStepId = none ∨ s'.waitingStepId = some step.id :=
    hwait.imp (fun h => h) (fun h => h.1)
  have hsame : ∀ found ∈ s.definition.steps, (step.id == found.id) = true → found = step := by
    intro found hf hb
    exact List.inj_on_of_nodup_map hn hf ha.mem.1 ((Scalar.beq_iff _ _).mp hb).symm
  refine ⟨hidle, ?_, ?_, ?_, ?_⟩
  · intro id hid
    rcases hwait with hw | ⟨hw, hran, hdone⟩
    · rw [hw] at hid
      cases hid
    · rw [hw] at hid
      cases hid
      exact ⟨hran, hdone⟩
  · rw [hg.definition]
    intro found hf hran dep hd
    have hdep : Done s dep ∨ s.stepResults.contains dep = true ∧ FallsTo s.definition.steps dep found.id := by
      cases hb : step.id == found.id with
      | true =>
          obtain rfl := hsame found hf hb
          exact hdeps hran dep hd
      | false => exact h.deps found hf ((hg.ran_iff s s' step found.id hb).mp hran) dep hd
    rcases hdep with hdone | ⟨hc, hfalls⟩
    · exact .inl (hg.done s s' stepId step ha dep hdone)
    · exact .inr ⟨hg.contains dep hc, hfalls⟩
  · rw [hg.definition]
    intro condition target hnames hfresh hp hc
    have hfresh' : s.stepResults.contains target.id = false := by
      cases ht : s.stepResults.contains target.id with
      | false => rfl
      | true =>
          rw [hg.contains target.id ht] at hfresh
          cases hfresh
    have hnext : Ran s' condition.id ∨ ∃ dep ∈ condition.deps, Blocked s dep := by
      cases hb : step.id == condition.id with
      | true =>
          obtain rfl := hsame condition hnames.1 hb
          exact hplain hp
      | false =>
          have hold : s.stepResults.contains condition.id = true := by
            rw [← Dict.isSome_get?] at hc ⊢
            rcases hg.elsewhere condition.id hb with hget | ⟨-, ⟨other, ho, path, hpath, hpb⟩, -⟩
            · rwa [← hget]
            · rw [hp.path other ho path hpath] at hpb
              cases hpb
          exact (h.plain condition target hnames hfresh' hp hold).imp
            (hg.ran_iff s s' step condition.id hb).mpr (fun hblocked => hblocked)
    rcases hnext with hran | ⟨dep, hd, hb⟩
    · exact .inl hran
    · exact .inr ⟨dep, hd, hg.blocked s s' stepId step ha hwaiting dep hb⟩
  · rw [hg.definition]
    intro id entry target hget he
    cases hb : step.id == id with
    | true =>
        rw [← Dict.get?_congr _ step.id id hb] at hget
        exact ⟨step, ha.mem.1, hb, hrec entry target hget he⟩
    | false =>
        rcases hg.elsewhere id hb with hsame | ⟨-, -, hskip⟩
        · rw [hsame] at hget
          exact h.recorded id entry target hget he
        · rw [hskip] at hget
          cases hget
          cases he

include ha in
theorem Ordered.skipped (h : Ordered s) (hn : (canonIds s.definition.steps).Nodup) (reason : String)
    (hc : checkDependencies step s = some reason) :
    Ordered (s.record step.id (skippedResult reason)) := by
  have hself : (s.record step.id (skippedResult reason)).stepResults.get? step.id =
      some (skippedResult reason) := by
    rw [record_stepResults, Dict.get?_insert_self]
  have hidle : s.waitingStepId = none := h.idle ha.running
  refine h.turn s _ stepId step ha hn ⟨rfl, ?_, ?_⟩ (fun _ => hidle) (.inl hidle) ?_ ?_ ?_
  · intro id hid
    simp [hid]
  · intro id hne
    rw [record_stepResults, Dict.get?_insert, hne]
    exact .inl rfl
  · intro hran
    rw [Ran, hself] at hran
    cases hran
  · intro hp
    exact .inr (h.blocked_of_some s hn stepId step ha hp reason hc)
  · intro entry target hget he
    rw [hself] at hget
    cases hget
    cases he

include ha in
theorem Ordered.settled (h : Ordered s) (hn : (canonIds s.definition.steps).Nodup)
    (known : Scalar → Bool) (status : StepStatus) (result : Json)
    (hc : checkDependencies step s = none) (hs : status ≠ .replanned)
    (hr : s'.stepResults =
      branchResults known step result (recordedResult step status result) s.stepResults)
    (hd : s'.definition = s.definition)
    (hw : s'.status = .running ∧ s'.waitingStepId = s.waitingStepId ∨
      s'.status ≠ .running ∧ s'.waitingStepId = some step.id ∧
        (s'.status = .waitingEvent → status = .waitingEvent)) : Ordered s' := by
  have hself : s'.stepResults.get? step.id =
      some (branchEntry known step result (recordedResult step status result)) := by
    rw [hr, get?_branchResults_self]
  have hran : Ran s' step.id := by
    rw [Ran, hself]
    exact ran_recordedResult known step status result hs
  have hentry : (branchEntry known step result (recordedResult step status result)).status = status ∧
      (branchEntry known step result (recordedResult step status result)).fallbackTarget =
        fallbackTarget step := by
    unfold branchEntry
    split
    · exact ⟨rfl, rfl⟩
    · exact ⟨rfl, rfl⟩
  refine h.turn s s' stepId step ha hn ⟨hd, ?_, ?_⟩ ?_ ?_ ?_ (fun _ => .inl hran) ?_
  · intro id hid
    rw [hr]
    exact contains_branchResults _ _ _ _ _ id hid
  · intro id hne
    rw [hr]
    rcases get?_branchResults known step result (recordedResult step status result) s.stepResults id hne
      with hget | ⟨hfresh, htype, ⟨other, ho, hb⟩, hget⟩
    · exact .inl hget
    · exact .inr ⟨hfresh, ⟨step, ha.mem.1, other, (mem_paths step other).mpr ⟨htype, ho⟩, hb⟩, hget⟩
  · intro hrun
    rcases hw with ⟨-, hwait⟩ | ⟨hne, -⟩
    · rw [hwait]
      exact h.idle ha.running
    · exact absurd hrun hne
  · rcases hw with ⟨-, hwait⟩ | ⟨-, hwait, hevent⟩
    · exact .inl (by rw [hwait]; exact h.idle ha.running)
    · refine .inr ⟨hwait, hran, ?_⟩
      intro he hdone
      rw [Done, statusOf, hself, Option.map_some, hentry.1, hevent he] at hdone
      cases hdone
  · intro _ dep hdep
    exact h.deps_of_none s step hc dep hdep
  · intro entry target hget he
    rw [hself] at hget
    cases hget
    rw [← hentry.2, he]

end Turns

section Waits

variable (s : RunState)

-- The entry of the waiting step is replaced, and the run goes on.
theorem Ordered.released (h : Ordered s) (waiting : Scalar) (result : StepResult)
    (hw : s.waitingStepId = some waiting)
    (hr : result.status = .completed ∨ s.status = .waitingEvent ∧ result.status = .timedOut)
    (hf : result.fallbackTarget = none) : Ordered (s.release waiting result .running) := by
  obtain ⟨hran, hevent⟩ := h.waits waiting hw
  have hself : (s.release waiting result .running).stepResults.get? waiting = some result := by
    rw [release_stepResults, Dict.get?_insert_self]
  have helse : ∀ id, (waiting == id) = false →
      (s.release waiting result .running).stepResults.get? id = s.stepResults.get? id := by
    intro id hne
    rw [release_stepResults, Dict.get?_insert, hne]
    rfl
  have hran' : Ran (s.release waiting result .running) waiting := by
    rw [Ran, hself]
    rcases hr with hr | ⟨-, hr⟩ <;> simp [StepResult.ran, hr]
  have hcontains : ∀ id, (s.release waiting result .running).stepResults.contains id =
      s.stepResults.contains id := by
    intro id
    rw [release_stepResults, Dict.contains_insert]
    cases hb : waiting == id with
    | false => rfl
    | true => rw [← Dict.contains_congr _ waiting id hb, hran.contains, Bool.true_or]
  have hran_iff : ∀ id, Ran (s.release waiting result .running) id ↔ Ran s id := by
    intro id
    cases hb : waiting == id with
    | false => exact ran_of_get? s _ id (helse id hb)
    | true =>
        rw [← ran_congr _ waiting id hb, ← ran_congr _ waiting id hb]
        exact ⟨fun _ => hran, fun _ => hran'⟩
  have hdone : ∀ id, Done s id → Done (s.release waiting result .running) id := by
    intro id hd
    cases hb : waiting == id with
    | false => exact (done_of_get? s _ id (helse id hb)).mpr hd
    | true =>
        rw [← done_congr _ waiting id hb] at hd ⊢
        rcases hr with hr | ⟨hs, -⟩
        · rw [Done, statusOf, hself, Option.map_some, hr]
        · exact absurd hd (hevent hs)
  refine ⟨fun _ => rfl, fun id hid => (by cases hid), ?_, ?_, ?_⟩
  · intro step hs hrun dep hd
    rcases h.deps step hs ((hran_iff step.id).mp hrun) dep hd with hdep | ⟨hc, hfalls⟩
    · exact .inl (hdone dep hdep)
    · exact .inr ⟨by rw [hcontains]; exact hc, hfalls⟩
  · intro condition target hnames hfresh hp hc
    rw [hcontains] at hfresh hc
    rcases h.plain condition target hnames hfresh hp hc with hrun | ⟨dep, hd, hblocked⟩
    · exact .inl ((hran_iff condition.id).mpr hrun)
    · refine .inr ⟨dep, hd, ?_, fun id hid => (by cases hid), ?_⟩
      · rw [done_of_get? s _ dep (helse dep (hblocked.2.1 waiting hw))]
        exact hblocked.1
      · rw [hcontains]
        exact hblocked.2.2
  · intro id entry target hget he
    cases hb : waiting == id with
    | true =>
        rw [← Dict.get?_congr _ waiting id hb, hself] at hget
        cases hget
        rw [hf] at he
        cases he
    | false =>
        rw [helse id hb] at hget
        exact h.recorded id entry target hget he

-- A change of outputs is no change here.
theorem Ordered.outputs (h : Ordered s) (s' : RunState) (hdef : s'.definition = s.definition)
    (hstatus : s'.status = s.status) (hwaiting : s'.waitingStepId = s.waitingStepId)
    (hget : ∀ id, s'.stepResults.get? id = s.stepResults.get? id ∨
      ∃ prior output, s.stepResults.get? id = some prior ∧
        s'.stepResults.get? id = some { prior with output := output }) : Ordered s' := by
  have hran_iff : ∀ id, Ran s' id ↔ Ran s id := by
    intro id
    rcases hget id with hg | ⟨prior, output, hg, hg'⟩
    · exact ran_of_get? s s' id hg
    · rw [Ran, Ran, hg, hg']
      rfl
  have hdone_iff : ∀ id, Done s' id ↔ Done s id := by
    intro id
    rcases hget id with hg | ⟨prior, output, hg, hg'⟩
    · exact done_of_get? s s' id hg
    · rw [Done, Done, statusOf, statusOf, hg, hg']
      rfl
  have hcontains : ∀ id, s'.stepResults.contains id = s.stepResults.contains id := by
    intro id
    rw [← Dict.isSome_get?, ← Dict.isSome_get?]
    rcases hget id with hg | ⟨prior, output, hg, hg'⟩
    · rw [hg]
    · rw [hg, hg']
      rfl
  refine ⟨?_, ?_, ?_, ?_, ?_⟩
  · rw [hstatus, hwaiting]
    exact h.idle
  · intro id hid
    rw [hran_iff, hstatus, hdone_iff]
    exact h.waits id (by rw [← hwaiting, hid])
  · intro step hm hrun dep hd
    rw [hdone_iff, hcontains, hdef]
    exact h.deps step (by rw [← hdef]; exact hm) ((hran_iff _).mp hrun) dep hd
  · intro condition target hnames hfresh hp hc
    rw [hcontains] at hfresh hc
    rw [hdef] at hnames hp
    rw [hran_iff]
    refine (h.plain condition target hnames hfresh hp hc).imp_right ?_
    rintro ⟨dep, hd, hblocked⟩
    refine ⟨dep, hd, ?_⟩
    unfold Blocked
    rw [hdone_iff, hwaiting, hcontains, hdef]
    exact hblocked
  · intro id entry target hg he
    rw [hdef]
    rcases hget id with hsame | ⟨prior, output, hold, hnew⟩
    · rw [hsame] at hg
      exact h.recorded id entry target hg he
    · rw [hnew] at hg
      cases hg
      exact h.recorded id prior target hold he

theorem Ordered.escalated (h : Ordered s) (waiting : Scalar) (output : Json)
    (hw : s.waitingStepId = some waiting) :
    Ordered { s with stepResults :=
      s.stepResults.insert waiting { priorResult s waiting with output := output } } := by
  obtain ⟨hran, -⟩ := h.waits waiting hw
  obtain ⟨prior, hprior⟩ : ∃ prior, s.stepResults.get? waiting = some prior := by
    rw [← Option.isSome_iff_exists, Dict.isSome_get?]
    exact hran.contains
  refine h.outputs s _ rfl rfl rfl ?_
  intro id
  dsimp only
  rw [Dict.get?_insert]
  cases hb : waiting == id with
  | false => exact .inl rfl
  | true =>
      refine .inr ⟨prior, output, by rw [← Dict.get?_congr _ waiting id hb, hprior], ?_⟩
      rw [if_pos rfl, priorResult, hprior, Option.getD_some]

end Waits

section Replans

variable (s : RunState) (stepId : Scalar) (step : Step) (newSteps : List Step)
  (ha : AtStep s stepId step) (hj : Joins s step.id newSteps)

-- A step with a result, or the failed one, is a step that stays.
theorem mem_kept (found : Step) (hm : found ∈ s.definition.steps)
    (hc : (s.stepResults.contains found.id || step.id == found.id) = true) :
    found ∈ replannedSteps s step.id newSteps :=
  List.mem_append_left _ (List.mem_filter.mpr ⟨hm, hc⟩)

include hj in
-- A replan leaves no condition of the past with a step of the future.
theorem contains_of_joins (message : String) (now : Int) (condition target : Step)
    (hnames : Names (replannedSteps s step.id newSteps) condition target)
    (hc : (s.stepResults.contains condition.id || step.id == condition.id) = true) :
    (replannedState s step.id message newSteps now).stepResults.contains target.id = true := by
  obtain ⟨hm, htarget, path, hpath, hb⟩ := hnames
  rcases mem_replannedSteps s step.id newSteps condition hm with ⟨hold, -⟩ | ⟨new, hnew, rfl⟩
  · rcases mem_replannedSteps s step.id newSteps target htarget with ⟨-, hkept⟩ | ⟨new, hnew, rfl⟩
    · show (s.stepResults.insert step.id (replannedResult message)).contains target.id = true
      rw [Dict.contains_insert, Bool.or_eq_true]
      exact hkept.symm
    · have hapart := hj.apart condition hold hc path hpath new hnew
      rw [show (path == new.id) = true from hb] at hapart
      cases hapart
  · obtain ⟨hfailed, hfresh⟩ := hj.fresh new hnew
    have hnone : (s.stepResults.contains new.id || step.id == new.id) = false := by
      rw [hfresh, hfailed]
      rfl
    cases hc.symm.trans hnone

include ha hj in
theorem Ordered.replanned (h : Ordered s) (message : String) (now : Int) :
    Ordered (replannedState s step.id message newSteps now) := by
  generalize hs' : replannedState s step.id message newSteps now = s'
  have hdef : s'.definition.steps = replannedSteps s step.id newSteps := by rw [← hs']; rfl
  have hself : s'.stepResults.get? step.id = some (replannedResult message) := by
    rw [← hs']
    exact Dict.get?_insert_self _ _ _
  have helse : ∀ id, (step.id == id) = false → s'.stepResults.get? id = s.stepResults.get? id := by
    intro id hne
    rw [← hs']
    show (s.stepResults.insert step.id _).get? id = _
    rw [Dict.get?_insert, hne]
    rfl
  have hcontains : ∀ id, s'.stepResults.contains id = (step.id == id || s.stepResults.contains id) := by
    intro id
    rw [← hs']
    exact Dict.contains_insert _ _ _ _
  have hwaiting : s'.waitingStepId = none := by
    rw [← hs']
    exact h.idle ha.running
  have hnew : ∀ new ∈ newSteps, s'.stepResults.contains new.id = false := by
    intro new hn
    rw [hcontains, (hj.fresh new hn).1, (hj.fresh new hn).2]
    rfl
  -- Only a step that stays can have a result.
  have hkept : ∀ found ∈ replannedSteps s step.id newSteps, s'.stepResults.contains found.id = true →
      found ∈ s.definition.steps ∧ (s.stepResults.contains found.id || step.id == found.id) = true := by
    intro found hf hc
    rcases mem_replannedSteps s step.id newSteps found hf with ⟨hm, hdone⟩ | ⟨new, hn, rfl⟩
    · exact ⟨hm, by simpa using hdone⟩
    · rw [show ({ new with replanned := true } : Step).id = new.id from rfl, hnew new hn] at hc
      cases hc
  have hran : ∀ id, Ran s' id → (step.id == id) = false ∧ Ran s id := by
    intro id hr
    cases hb : step.id == id with
    | true =>
        rw [← ran_congr _ step.id id hb, Ran, hself] at hr
        cases hr
    | false => exact ⟨rfl, (ran_of_get? s s' id (helse id hb)).mp hr⟩
  refine ⟨fun _ => hwaiting, ?_, ?_, ?_, ?_⟩
  · intro id hid
    rw [hwaiting] at hid
    cases hid
  · rw [hdef]
    intro found hf hrun dep hd
    obtain ⟨hm, -⟩ := hkept found hf hrun.contains
    rcases h.deps found hm (hran found.id hrun).2 dep hd with hdone | ⟨hc, source, hsource, hb, ht⟩
    · left
      exact (done_of_get? s s' dep (helse dep (ha.ne_of_contains s stepId step dep hdone.contains))).mpr hdone
    · refine .inr ⟨by rw [hcontains, hc, Bool.or_true], source, ?_, hb, ht⟩
      apply mem_kept s step newSteps source hsource
      rw [Dict.contains_congr _ source.id dep hb, hc, Bool.true_or]
  · rw [hdef]
    intro condition target hnames hfresh _ hc
    have hin := contains_of_joins s step newSteps hj message now condition target hnames
      (hkept condition hnames.1 hc).2
    rw [hs', hfresh] at hin
    cases hin
  · rw [hdef]
    intro id entry target hget he
    cases hb : step.id == id with
    | true =>
        rw [← Dict.get?_congr _ step.id id hb, hself] at hget
        cases hget
        cases he
    | false =>
        rw [helse id hb] at hget
        obtain ⟨found, hf, hfb, hft⟩ := h.recorded id entry target hget he
        refine ⟨found, mem_kept s step newSteps found hf ?_, hfb, hft⟩
        rw [Dict.contains_congr _ found.id id hfb, ← Dict.isSome_get?, hget]
        rfl

include hj in
theorem nodup_of_joins (hn : (canonIds s.definition.steps).Nodup) (reply : List Entry)
    (hreply : replanWorkflow s.stepResults.keys reply = .ok newSteps) :
    (canonIds (replannedSteps s step.id newSteps)).Nodup := by
  rw [canonIds_replannedSteps]
  refine List.Nodup.append (hn.sublist (List.filter_sublist.map _)) (replanWorkflow_ok _ _ _ hreply).1 ?_
  intro node hkept hnew
  obtain ⟨found, hf, rfl⟩ := (mem_canonIds _ _).mp hkept
  obtain ⟨new, hm, hc⟩ := (mem_canonIds _ _).mp hnew
  have hb : (found.id == new.id) = true := (Scalar.beq_iff _ _).mpr hc.symm
  obtain ⟨hfailed, hfresh⟩ := hj.fresh new hm
  rcases Bool.or_eq_true_iff.mp (List.mem_filter.mp hf).2 with hdone | hdone
  · rw [Dict.contains_congr _ found.id new.id hb, hfresh] at hdone
    cases hdone
  · rw [BEq.trans hdone hb] at hfailed
    cases hfailed

end Replans

end AgenticOrg.Workflows
