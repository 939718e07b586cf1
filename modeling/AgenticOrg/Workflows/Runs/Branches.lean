import AgenticOrg.Workflows.Branches.Theorems

namespace AgenticOrg.Workflows

open OrderedDict VersionedStore Precedence

section Stored

structure Branched (s : RunState) : Prop where
  placed : Placed TextKey s
  records : RecordsWaiting s
  nodup : (canonIds s.definition.steps).Nodup
  guarded : Guarded s.definition.steps
  ordered : s.status.isLive = true → Ordered s

theorem Branched.jsonSafe (s : RunState) (h : Branched s) : jsonSafe s = s :=
  jsonSafe_of_text s h.placed.steady.keys

theorem Joins.steady (s : RunState) (h : Placed TextKey s) (failed : Scalar) (newSteps : List Step)
    (hj : Joins s failed newSteps) :
    Steady TextKey s.stepResults.keys (replannedSteps s failed newSteps) := by
  refine ⟨?_, h.steady.keys, ?_⟩
  · intro step hs
    rcases mem_replannedSteps s failed newSteps step hs with ⟨hm, -⟩ | ⟨new, hn, rfl⟩
    · exact h.steady.texts step hm
    · exact hj.texts new hn
  · intro step hs path hp
    rcases mem_replannedSteps s failed newSteps step hs with ⟨hm, -⟩ | ⟨new, hn, rfl⟩
    · exact h.steady.paths step hm path hp
    · exact hj.paths new hn path hp

theorem Branched.ordered_of_move (s s' : RunState) (note : Note) (h : Branched s)
    (hm : Move s s' note) : Ordered s' := by
  have ho := h.ordered hm.live
  cases hm with
  | skipped stepId step reason ha hc he =>
      rw [he]
      exact ho.skipped s stepId step ha h.nodup reason hc
  | settled stepId step known status result ha hc hk hs hr hd hw =>
      exact ho.settled s s' stepId step ha h.nodup known status result hc hs hr hd hw
  | replanned stepId step message reply newSteps now ha hj hreply he =>
      rw [he]
      exact ho.replanned s stepId step newSteps ha hj message now
  | released waiting result hp hw he hr hf =>
      rw [he]
      exact ho.released s waiting result hw hr hf
  | escalated waiting output hs hw he =>
      rw [he]
      exact ho.escalated s waiting output hw

theorem branched_stored (repository : Repository) : Stored repository branchRules Branched where
  writes s s' note h hw := by
    have hplaced : Placed TextKey s' := by
      refine h.placed.writes TextKey (fun _ _ ht => ht) branchRules s s' note ?_ (fun _ hl => hl) ?_ hw
      · intro stepId hl hp ht
        exact h.placed.waiting_text TextKey s hp stepId (hl ht)
      · intro step remaining message reply newSteps _ hr hn
        exact (hr reply newSteps rfl hn).steady s h.placed step.id newSteps
    have hrecords := (recordsWaiting_stored repository branchRules).writes s s' note h.records hw
    have hordered : s'.status.isLive = true → Ordered s' := by
      intro hl
      exact h.ordered_of_move s s' note (Writes.move hw h.placed h.records hl)
    rcases Writes.definition hw with ⟨hd, -⟩ | ⟨stepId, step, message, remaining, reply, newSteps, now,
      ha, hr, hn, rfl⟩
    · exact ⟨hplaced, hrecords, by rw [hd]; exact h.nodup, by rw [hd]; exact h.guarded, hordered⟩
    · have hj := hr reply newSteps rfl hn
      exact ⟨hplaced, hrecords, nodup_of_joins s step newSteps hj h.nodup reply hn, hj.guarded, hordered⟩
  encode s h := by
    show Branched (jsonSafe s)
    rw [h.jsonSafe]
    exact h

end Stored

section Gates

variable (s : RunState) (h : Ordered s) (hn : (canonIds s.definition.steps).Nodup) (stepId : Scalar)
  (target : Step) (ha : AtStep s stepId target) (hc : checkDependencies target s = none)

include h hn ha hc in
-- Whatever a step waits for has completed when the step is run.
theorem done_of_gates (before : Canon)
    (hg : Relation.TransGen (Gate s.definition.steps) before target.id.canon) (id : Scalar)
    (hid : id.canon = before) : Done s id := by
  induction hg using Relation.TransGen.head_induction_on generalizing id with
  | single hgate =>
      obtain ⟨step, hs, dep, hd, rfl, hstep, hfalls⟩ := hgate
      obtain rfl : step = target := List.inj_on_of_nodup_map hn hs ha.mem.1 hstep.symm
      rw [done_congr s id dep ((Scalar.beq_iff _ _).mpr hid)]
      rcases h.deps_of_none s step hc dep hd with hdone | ⟨-, hf⟩
      · exact hdone
      · exact absurd hf hfalls
  | head hgate _ ih =>
      obtain ⟨step, hs, dep, hd, rfl, rfl, hfalls⟩ := hgate
      rw [done_congr s id dep ((Scalar.beq_iff _ _).mpr hid)]
      have hran := (ih step.id rfl).ran
      rcases h.deps step hs hran dep hd with hdone | ⟨-, hf⟩
      · exact hdone
      · exact absurd hf hfalls

include h hn ha hc in
-- A condition that leads to the step has been run before it.
theorem ran_of_names (ht : TextIds s.definition.steps) (hguard : Guarded s.definition.steps)
    (condition : Step) (hnames : Names s.definition.steps condition target) : Ran s condition.id := by
  have hgates := done_of_gates s h hn stepId target ha hc
  rcases hguard condition target hnames with hgate | ⟨hplain, hdeps, hbefore⟩
  · exact (hgates condition.id.canon hgate condition.id rfl).ran
  · obtain ⟨front, back, horder, hdone⟩ := ha.place
    have hid : stepId = target.id := by
      have htarget := ht target ha.mem.1
      exact (Scalar.eq_of_beq_text target.id stepId htarget
        (Scalar.isText_of_beq stepId target.id (BEq.symm ha.mem.2) htarget) ha.mem.2).symm
    obtain ⟨found, hf, hb⟩ := hbefore _ horder front back (by rw [hid])
    have hin : s.stepResults.contains condition.id = true := by
      rw [← Dict.contains_congr _ found condition.id hb]
      exact hdone found hf
    rcases h.plain condition target hnames ha.fresh_self hplain hin with hran | ⟨dep, hd, hblocked⟩
    · exact hran
    · exact absurd (hgates dep.canon (hdeps dep hd) dep rfl) hblocked.1

end Gates

section History

-- One more step has been run only where the save settles it.
theorem Move.ran {s s' : RunState} {note : Note} (hm : Move s s' note) (ho : Ordered s) (id : Scalar)
    (hr : Ran s' id) :
    Ran s id ∨ note.event.settles = true ∧ ∃ stepId, note.stepId = some stepId ∧ (stepId == id) = true := by
  have hinsert : ∀ key result, (key == id) = false →
      s'.stepResults = s.stepResults.insert key result → Ran s id := by
    intro key result hne hs
    refine (ran_of_get? s s' id ?_).mp hr
    rw [hs, Dict.get?_insert, hne]
    rfl
  have hself : ∀ key result, (key == id) = true → s'.stepResults = s.stepResults.insert key result →
      result.ran = true := by
    intro key result hb hs
    rwa [← ran_congr s' key id hb, Ran, hs, Dict.get?_insert_self] at hr
  cases hm with
  | skipped stepId step reason ha hc he =>
      cases hb : step.id == id with
      | true => cases hself step.id _ hb (by rw [he]; rfl)
      | false => exact .inl (hinsert step.id _ hb (by rw [he]; rfl))
  | settled stepId step known status result ha hc hk hs hresults hd hw hn hsettles =>
      cases hb : step.id == id with
      | true => exact .inr ⟨hsettles, step.id, hn, hb⟩
      | false =>
          rw [Ran, hresults] at hr
          rcases get?_branchResults known step result _ s.stepResults id hb with h | ⟨-, -, -, h⟩
          · rw [h] at hr
            exact .inl hr
          · rw [h] at hr
            cases hr
  | replanned stepId step message reply newSteps now ha hj hreply he =>
      cases hb : step.id == id with
      | true => cases hself step.id _ hb (by rw [he]; rfl)
      | false => exact .inl (hinsert step.id _ hb (by rw [he]; rfl))
  | released waiting result hp hw he =>
      cases hb : waiting == id with
      | true => exact .inl ((ran_congr s waiting id hb).mp (ho.waits waiting hw).1)
      | false => exact .inl (hinsert waiting _ hb (by rw [he]; rfl))
  | escalated waiting output hs hw he =>
      cases hb : waiting == id with
      | true => exact .inl ((ran_congr s waiting id hb).mp (ho.waits waiting hw).1)
      | false => exact .inl (hinsert waiting _ hb (by rw [he]))

-- A save that settles a step is the turn of the step the driver has come to.
theorem Move.settled_of {s s' : RunState} {note : Note} (hm : Move s s' note)
    (hn : note.event.settles = true) :
    ∃ stepId step known status result, AtStep s stepId step ∧ NotesBranches s known ∧
      s'.stepResults =
        branchResults known step result (recordedResult step status result) s.stepResults ∧
      note.stepId = some step.id := by
  cases hm with
  | settled stepId step known status result ha hc hk hs hr hd hw hid =>
      exact ⟨stepId, step, known, status, result, ha, hk, hr, hid⟩
  | skipped stepId step reason ha hc he hfalse => rw [hfalse] at hn; cases hn
  | replanned stepId step message reply newSteps now ha hj hreply he hfalse => rw [hfalse] at hn; cases hn
  | released waiting result hp hw he hr hf hfalse => rw [hfalse] at hn; cases hn
  | escalated waiting output hs hw he hfalse => rw [hfalse] at hn; cases hn

-- The history of a row tells how its results came about.
structure Traced (row : Row Engine) (rest : List (Row Engine)) : Prop where
  grows : ∀ older ∈ rest, ∀ id, older.state.stepResults.contains id = true →
    row.state.stepResults.contains id = true
  fresh : ∀ older ∈ rest, ∀ id, older.state.stepResults.contains id = true → ¬ Evaluates row id
  evaluated : ∀ found ∈ row :: rest, ∀ id, Evaluates found id → row.state.stepResults.contains id = true
  ran : row.state.status.isLive = true → ∀ id, Ran row.state id → ∃ found ∈ row :: rest, Evaluates found id
  selected : ∀ condition target, Names row.state.definition.steps condition target →
    ∀ found ∈ row :: rest, Evaluates found condition.id →
      row.state.stepResults.contains target.id = true ∨ Selects found condition target

def AllTraced : List (Row Engine) → Prop
  | [] => True
  | row :: rest => Traced row rest ∧ AllTraced rest

variable (repository : Repository)

abbrev BranchLink (newer older : Row Engine) : Prop :=
  Link (repository.backend Op Result) (engineSpec branchRules) Branched newer older

-- A link without the encoding, which changes nothing here.
theorem BranchLink.writes (newer older : Row Engine) (hl : BranchLink repository newer older) :
    Branched older.state ∧ Branched newer.state ∧ Writes branchRules older.state newer.state newer.note := by
  obtain ⟨-, s, s', hs, hw, -, holder, hnewer⟩ := hl
  have hs' := (branched_stored repository).writes s s' newer.note hs hw
  have ho : older.state = s := by rw [holder]; exact hs.jsonSafe
  have hn : newer.state = s' := by rw [hnewer]; exact hs'.jsonSafe
  rw [ho, hn]
  exact ⟨hs, hs', hw⟩

-- Where a condition is evaluated, the other path is skipped.
theorem selects_of_settled (s : RunState) (h : Branched s) (row : Row Engine) (step : Step)
    (known : Scalar → Bool) (hk : NotesBranches s known) (status : StepStatus) (result : Json)
    (hr : row.state.stepResults =
      branchResults known step result (recordedResult step status result) s.stepResults)
    (target : Step) (hnames : Names s.definition.steps step target) :
    row.state.stepResults.contains target.id = true ∨ Selects row step target := by
  obtain ⟨hm, htarget, path, hpath, hb⟩ := hnames
  obtain ⟨htype, hpaths⟩ := (mem_paths step path).mp hpath
  have hknown : known path = true := by
    rcases hk with rfl | rfl
    · rw [contains_buildStepIndex, named_congr _ path target.id hb]
      exact named_of_mem _ target htarget
    · rfl
  rcases branchResults_target known step result (recordedResult step status result) s.stepResults path
    htype hpaths (h.placed.steady.paths step hm path hpath) hknown with hc | hentry
  · left
    rw [hr, ← Dict.contains_congr _ path target.id hb]
    exact hc
  · refine .inr ⟨_, path, ?_, hentry, hb⟩
    rw [hr]
    exact get?_branchResults_self _ _ _ _ _

theorem Traced.push (newer older : Row Engine) (rest : List (Row Engine))
    (hl : BranchLink repository newer older) (ht : Traced older rest) : Traced newer (older :: rest) := by
  obtain ⟨hs, hs', hw⟩ := BranchLink.writes repository newer older hl
  have hmove := fun hlive => Writes.move hw hs.placed hs.records hlive
  have hsettled := fun hn => (hmove (Writes.live_of_settles hw hn)).settled_of hn
  have hgrow := fun id => Writes.contains hw id
  have hgrows : ∀ found ∈ older :: rest, ∀ id, found.state.stepResults.contains id = true →
      older.state.stepResults.contains id = true := by
    intro found hf id hc
    rcases List.mem_cons.mp hf with rfl | hf
    · exact hc
    · exact ht.grows found hf id hc
  refine ⟨fun found hf id hc => hgrow id (hgrows found hf id hc), ?_, ?_, ?_, ?_⟩
  · rintro found hf id hc ⟨hn, stepId', hid, hb⟩
    obtain ⟨stepId, step, known, status, result, ha, -, -, hnote⟩ := hsettled hn
    rw [hnote] at hid
    cases hid
    have hfresh := ha.fresh_self
    rw [Dict.contains_congr _ step.id id hb, hgrows found hf id hc] at hfresh
    cases hfresh
  · intro found hf id he
    rcases List.mem_cons.mp hf with rfl | hf
    · obtain ⟨hn, stepId', hid, hb⟩ := he
      obtain ⟨stepId, step, known, status, result, ha, -, hr, hnote⟩ := hsettled hn
      rw [hnote] at hid
      cases hid
      rw [← Dict.contains_congr _ step.id id hb, hr]
      exact contains_branchResults_self _ _ _ _ _
    · exact hgrow id (ht.evaluated found hf id he)
  · intro hlive id hran
    have hm := hmove hlive
    rcases hm.ran (hs.ordered hm.live) id hran with hold | ⟨hn, hid⟩
    · obtain ⟨found, hf, he⟩ := ht.ran hm.live id hold
      exact ⟨found, List.mem_cons_of_mem _ hf, he⟩
    · exact ⟨newer, by simp, hn, hid⟩
  · intro condition target hnames found hf he
    rcases List.mem_cons.mp hf with rfl | hf
    · obtain ⟨hn, stepId', hid, hb⟩ := he
      rw [Writes.definition_of_settles hw hn] at hnames
      obtain ⟨stepId, step, known, status, result, ha, hk, hr, hnote⟩ := hsettled hn
      rw [hnote] at hid
      cases hid
      obtain rfl : condition = step :=
        List.inj_on_of_nodup_map hs.nodup hnames.1 ha.mem.1 ((Scalar.beq_iff _ _).mp hb).symm
      exact selects_of_settled _ hs found condition known hk status result hr target hnames
    · rcases Writes.definition hw with ⟨hd, -⟩ | ⟨stepId, step, message, remaining, reply, newSteps, now,
        ha, hr, hreply, hstate⟩
      · rw [hd] at hnames
        exact (ht.selected condition target hnames found hf he).imp_left (hgrow target.id)
      · rw [hstate] at hnames ⊢
        have hin := ht.evaluated found hf condition.id he
        exact .inl (contains_of_joins _ step newSteps (hr reply newSteps rfl hreply) message now condition
          target hnames (by rw [hin]; rfl))

theorem AllTraced.split (above : List (Row Engine)) (row : Row Engine) (rest : List (Row Engine))
    (h : AllTraced (above ++ row :: rest)) :
    Traced row rest ∧
      ∀ found ∈ above, ∀ id, row.state.stepResults.contains id = true → ¬ Evaluates found id := by
  induction above with
  | nil => exact ⟨h.1, fun _ hf => absurd hf List.not_mem_nil⟩
  | cons top above ih =>
      obtain ⟨htop, hrest⟩ := h
      refine ⟨(ih hrest).1, ?_⟩
      intro found hf
      rcases List.mem_cons.mp hf with rfl | hf
      · exact htop.fresh row (by simp)
      · exact (ih hrest).2 found hf

theorem AllTraced.push (newer older : Row Engine) (rest : List (Row Engine))
    (hl : BranchLink repository newer older) (h : AllTraced (older :: rest)) :
    AllTraced (newer :: older :: rest) :=
  ⟨h.1.push repository newer older rest hl, h⟩

end History

section Start

variable (info : RunInfo) (definition : Definition) (now : Int)

theorem initialState_branched (hn : (canonIds definition.steps).Nodup) (ht : TextIds definition.steps)
    (hp : TextPaths definition.steps) (hg : Guarded definition.steps) :
    Branched (initialState info definition now) := by
  have hsteady : Steady TextKey [] definition.steps :=
    ⟨ht, fun key hk => absurd hk List.not_mem_nil, hp⟩
  refine ⟨⟨hsteady, ?_, ?_⟩, ?_, hn, hg, fun _ => ⟨fun _ => rfl, ?_, ?_, ?_, ?_⟩⟩
  · intro id hid
    cases hid
  · intro hpaused
    cases hpaused
  · intro id hid
    cases hid
  · intro id hid
    cases hid
  · intro step _ hran
    cases hran
  · intro condition target _ _ _ hin
    cases hin
  · intro id entry target hentry
    cases hentry

theorem initialState_traced : AllTraced (started (initialState info definition now)).store.history := by
  have hfirst : ∀ found ∈ [(⟨1, initialState info definition now, startNote⟩ : Row Engine)],
      ∀ id, ¬ Evaluates found id := by
    intro found hf id he
    rw [List.mem_singleton.mp hf] at he
    cases he.1
  refine ⟨⟨?_, ?_, ?_, ?_, ?_⟩, trivial⟩
  · intro older ho
    simp at ho
  · intro older ho
    simp at ho
  · intro found hf id he
    exact absurd he (hfirst found hf id)
  · intro _ id hran
    cases hran
  · intro condition target _ found hf he
    exact absurd he (hfirst found hf condition.id)

end Start

section Runs

-- A handler is asked for the target of a condition only when the condition has been evaluated,
-- and has selected the target.
theorem branch_exclusive (repository : Repository) (runId : String) (info : RunInfo)
    (raw : RawDefinition) (now : Int) (state : RunState) (hstart : startRun info raw now = .ok state)
    (htexts : TextIds state.definition.steps) (hpaths : TextPaths state.definition.steps)
    (hguard : Guarded state.definition.steps) (world : World Engine)
    (hr : Run repository runId branchRules (started state) world) (thread : Thread Engine)
    (hthread : thread ∈ world.threads) (target : Step) (seen : RunState)
    (next : Except String Json → Prog Engine)
    (hask : thread.prog = .ask (.executeStep target seen) next) (condition : Step)
    (hc : condition ∈ seen.definition.steps) (path : Scalar) (hpath : path ∈ condition.paths)
    (hb : (path == target.id) = true) :
    (∃ row ∈ world.store.history, Evaluates row condition.id) ∧
      ∀ row ∈ world.store.history, Evaluates row condition.id → Selects row condition target := by
  obtain ⟨definition, hparse, rfl⟩ := startRun_ok info raw now state hstart
  have hnodup := ((parse_ok_iff raw definition).mp hparse).2.nodup
  have hinit := started_inv repository branchRules Branched info definition now
    (initialState_branched info definition now hnodup htexts hpaths hguard)
  have hinv := run_inv repository runId branchRules Branched (branched_stored repository) _ world hinit hr
  have htraced := reaches_history _ _ branchRules _ Branched AllTraced (AllTraced.push repository)
    (keeps_body repository runId branchRules) (branched_stored repository) _ world hinit
    (initialState_traced info definition now) hr
  obtain ⟨hrespects, hheld, -⟩ := hinv.threads thread hthread
  rw [hask] at hrespects
  obtain ⟨⟨hcopy, hdeps, stepId, ha⟩, -⟩ := hrespects
  obtain ⟨⟨v, s⟩, hsome, hsnd⟩ := Option.map_eq_some_iff.mp hcopy
  obtain rfl : s = seen := hsnd
  obtain ⟨hs, row, hrow, -, hstate⟩ := hheld v s hsome
  have heq : row.state = s := hstate.trans hs.jsonSafe
  have hlive : s.status.isLive = true := by rw [ha.running]; rfl
  have hnames : Names s.definition.steps condition target := ⟨hc, ha.mem.1, path, hpath, hb⟩
  have hran := ran_of_names s (hs.ordered hlive) hs.nodup stepId target ha hdeps hs.placed.steady.texts
    hs.guarded condition hnames
  obtain ⟨above, rest, hhist⟩ := List.append_of_mem hrow
  rw [hhist] at htraced ⊢
  obtain ⟨hrowTraced, habove⟩ := htraced.split above row rest
  rw [← heq] at hnames hran hlive
  refine ⟨?_, ?_⟩
  · obtain ⟨found, hf, he⟩ := hrowTraced.ran hlive condition.id hran
    exact ⟨found, List.mem_append_right _ hf, he⟩
  · intro found hf he
    rcases List.mem_append.mp hf with hf | hf
    · exact absurd he (habove found hf condition.id hran.contains)
    · rcases hrowTraced.selected condition target hnames found hf he with hin | hselects
      · rw [heq, ha.fresh_self] at hin
        cases hin
      · exact hselects

-- It is enough that every target depends on its conditions, where nothing falls back.
theorem guarded_of_deps (steps : List Step)
    (hd : ∀ condition ∈ steps, ∀ target ∈ steps, ∀ path ∈ condition.paths,
      (path == target.id) = true → ∃ dep ∈ target.deps, (condition.id == dep) = true)
    (hf : ∀ step ∈ steps, fallbackTarget step = none) : Guarded steps := by
  rintro condition target ⟨hc, ht, path, hp, hb⟩
  obtain ⟨dep, hdep, he⟩ := hd condition hc target ht path hp hb
  refine .inl (.single ⟨target, ht, dep, hdep, (Scalar.beq_iff _ _).mp he, rfl, ?_⟩)
  rintro ⟨step, hs, -, hany⟩
  rw [hf step hs] at hany
  cases hany

def checkStep : Step :=
  { id := .str "check", type := some .condition, truePath := some (.str "pay"),
    falsePath := some (.str "refuse") }

-- The branches of `check`, which wait for it.
def waitingBranches : Definition :=
  { steps :=
      [checkStep, { id := .str "pay", dependsOn := some [.str "check"] },
       { id := .str "refuse", dependsOn := some [.str "check"] }] }

def waitingRun : RunState := initialState { id := "wfr_1" } waitingBranches 0

theorem branch_exclusive_pay :
    ∃ world, Run .inMemory "wfr_1" branchRules (started waitingRun) world ∧
      ∃ row ∈ world.store.history, Evaluates row (.str "check") ∧
        Selects row checkStep { id := .str "pay", dependsOn := some [.str "check"] } := by
  have hload : ∀ op : Op, op.isExecute = true → ∀ s, branchRules.load op s := by
    intro op ho s
    cases op <;> trivial
  have hr := midway_reached .inMemory "wfr_1" branchRules Op.isExecute (answering trueResult)
    (answering_allowed branchRules Joins rfl trueResult) hload waitingRun [.execute] [0, 0, 0, 0, 0, 0, 0]
  obtain ⟨thread, seen, next, hthreads, hask, hsteps⟩ : ∃ (thread : Thread Engine) (seen : RunState)
      (next : Except String Json → Prog Engine),
      (midway .inMemory "wfr_1" Op.isExecute (answering trueResult) waitingRun [.execute]
        [0, 0, 0, 0, 0, 0, 0]).threads = [thread] ∧
      thread.prog = .ask (.executeStep { id := .str "pay", dependsOn := some [.str "check"] } seen) next ∧
      seen.definition.steps = waitingBranches.steps := ⟨_, _, _, rfl, rfl, rfl⟩
  have htexts : TextIds waitingRun.definition.steps := by
    show ∀ step ∈ waitingBranches.steps, step.id.isText = true
    decide +kernel
  have hpaths : TextPaths waitingRun.definition.steps := by
    show ∀ step ∈ waitingBranches.steps, ∀ path ∈ step.paths, path.isText = true
    decide +kernel
  have hguard : Guarded waitingRun.definition.steps := by
    refine guarded_of_deps waitingBranches.steps ?_ ?_
    · decide +kernel
    · decide +kernel
  obtain ⟨⟨row, hm, he⟩, hselects⟩ := branch_exclusive .inMemory "wfr_1" { id := "wfr_1" }
    waitingBranches.raw 0 waitingRun rfl htexts hpaths hguard _ hr thread (by simp [hthreads]) _ seen next
    hask checkStep (by simp [hsteps, waitingBranches]) (.str "pay")
    ((mem_paths _ _).mpr ⟨rfl, .inl rfl⟩) rfl
  exact ⟨_, hr, row, hm, he, hselects row hm he⟩

-- The same branches without dependencies, one of them before the condition.
def hastyBranches : Definition :=
  { steps := [{ id := .str "pay" }, checkStep, { id := .str "refuse" }] }

def hastyRun : RunState := initialState { id := "wfr_1" } hastyBranches 0

-- Nothing holds the branch back, and it is run before its condition.
theorem branch_before_condition :
    startRun { id := "wfr_1" } hastyBranches.raw 0 = .ok hastyRun ∧
      ∃ world, Run .inMemory "wfr_1" (Rules.free Engine) (started hastyRun) world ∧
        ∃ thread ∈ world.threads, ∃ target seen next,
          thread.prog = .ask (.executeStep target seen) next ∧
          checkStep ∈ seen.definition.steps ∧ (.str "pay") ∈ checkStep.paths ∧
          (Scalar.str "pay" == target.id) = true ∧
          ∀ row ∈ world.store.history, ¬ Evaluates row checkStep.id := by
  have hr := midway_reached .inMemory "wfr_1" (Rules.free Engine) (fun _ => true)
    (answering trueResult) (fun _ => trivial) (fun _ _ _ => trivial) hastyRun [.execute] [0, 0]
  obtain ⟨thread, next, hthreads, hask, hhist⟩ : ∃ (thread : Thread Engine)
      (next : Except String Json → Prog Engine),
      (midway .inMemory "wfr_1" (fun _ => true) (answering trueResult) hastyRun [.execute]
        [0, 0]).threads = [thread] ∧
      thread.prog = .ask (.executeStep { id := .str "pay" } hastyRun) next ∧
      (midway .inMemory "wfr_1" (fun _ => true) (answering trueResult) hastyRun [.execute]
        [0, 0]).store.history = [⟨1, hastyRun, startNote⟩] := ⟨_, _, rfl, rfl, rfl⟩
  refine ⟨rfl, _, hr, thread, by simp [hthreads], _, _, next, hask, ?_,
    (mem_paths _ _).mpr ⟨rfl, .inl rfl⟩, rfl, ?_⟩
  · show checkStep ∈ hastyBranches.steps
    simp [hastyBranches]
  · intro row hm he
    rw [hhist, List.mem_singleton] at hm
    rw [hm] at he
    cases he.1

end Runs

end AgenticOrg.Workflows
