import AgenticOrg.Spend.Resolver

namespace AgenticOrg.Spend.Resolver

open OrderedDict Memos

section Loading

variable (env : ResolverEnv) (tenant : Tenant)

-- The facts of a call with all of the tenant's mappings and nodes.
def wholeFacts (hints : Hints) (userUuid : Option Uuid) : Facts where
  agentUuid := (agentOf env tenant hints).1
  agent := (agentOf env tenant hints).2
  workflowUuid := asUuid env hints.workflowId
  userUuid := userUuid
  userDepartmentId := (departmentOf tenant (agentOf env tenant hints).1 userUuid).1
  userDepartmentCode := (departmentOf tenant (agentOf env tenant hints).1 userUuid).2
  mappings := .ofList ((tenant.mappingRows.filter MappingRow.active).map fun row => (row.source, row.facts))
  nodesById := .ofList (tenant.nodes.map fun node => (node.id, node))
  nodesByCode := .ofList (tenant.nodes.map fun node => (node.code, node))
  region := tenant.region
  environment := env.environmentNow

variable (hints : Hints) (user : Option Uuid)

theorem mappings_loaded (sources : List Source) (source : Source) (hs : source ∈ sources) :
    (mappings tenant sources).get? source = (wholeFacts env tenant hints user).mappings.get? source := by
  unfold mappings wholeFacts
  have hfilter : (tenant.mappingRows.filter fun row => row.active && sources.contains row.source) =
      (tenant.mappingRows.filter MappingRow.active).filter fun row => sources.contains row.source := by
    rw [List.filter_filter]
    refine List.filter_congr fun row _ => ?_
    rw [Bool.and_comm]
  rw [hfilter]
  refine Dict.get?_ofList_filter _ _ _ _ fun row _ hr => ?_
  have hsource : row.source = source := eq_of_beq hr
  rw [hsource]
  exact List.contains_iff_mem.mpr hs

theorem nodesById_loaded (ids : List Uuid) (codes : List String) (id : Uuid) (hid : id ∈ ids) :
    (nodes tenant ids codes).1.get? id = (wholeFacts env tenant hints user).nodesById.get? id := by
  refine Dict.get?_ofList_filter _ _ _ _ fun node _ hn => ?_
  have hnode : node.id = id := eq_of_beq hn
  rw [hnode, List.contains_iff_mem.mpr hid, Bool.true_or]

theorem nodesByCode_loaded (ids : List Uuid) (codes : List String) (code : String) (hc : code ∈ codes) :
    (nodes tenant ids codes).2.get? code = (wholeFacts env tenant hints user).nodesByCode.get? code := by
  refine Dict.get?_ofList_filter _ _ _ _ fun node _ hn => ?_
  have hnode : node.code = code := eq_of_beq hn
  rw [hnode, List.contains_iff_mem.mpr hc, Bool.or_true]

-- The sources of a call, as `loadFacts` asks for them.
def askedSources : List Source :=
  sourcesOf env hints (agentOf env tenant hints).1 (agentOf env tenant hints).2
    (departmentOf tenant (agentOf env tenant hints).1 user).1

theorem nodeOf_loaded (sourceType ref path : String) (hs : (sourceType, ref) ∈ askedSources env tenant hints user) :
    nodeOf (loadFacts env tenant hints user) sourceType (some ref) path =
      nodeOf (wholeFacts env tenant hints user) sourceType (some ref) path := by
  have hmapping := mappings_loaded env tenant hints user _ _ hs
  unfold nodeOf
  rw [Option.bind_some, Option.bind_some, ← hmapping]
  change ((mappings tenant (askedSources env tenant hints user)).get? (sourceType, ref)).bind _ = _
  cases hf : (mappings tenant (askedSources env tenant hints user)).get? (sourceType, ref) with
  | none => rfl
  | some mapping =>
      rw [Option.bind_some, Option.bind_some]
      cases hid : mapping.orgNodeId with
      | none => rfl
      | some id =>
          have hasked : id ∈ idsOf (mappings tenant (askedSources env tenant hints user)) :=
            List.mem_filterMap.mpr ⟨_, Dict.mem_of_get? _ _ _ hf, hid⟩
          rw [Option.bind_some, Option.bind_some, ← nodesById_loaded env tenant hints user _ _ id hasked]
          rfl

theorem codeNode_loaded (value : Option String) (path : String)
    (hc : ∀ found, truthy (code env value) = some found →
      found ∈ codesOf env (agentOf env tenant hints).2 (departmentOf tenant (agentOf env tenant hints).1 user).2) :
    codeNode env (loadFacts env tenant hints user) value path =
      codeNode env (wholeFacts env tenant hints user) value path := by
  unfold codeNode
  cases hfound : truthy (code env value) with
  | none => rfl
  | some found =>
      rw [Option.bind_some, Option.bind_some, ← nodesByCode_loaded env tenant hints user _ _ found (hc found hfound)]
      rfl

theorem department_loaded :
    department env (loadFacts env tenant hints user) = department env (wholeFacts env tenant hints user) := by
  have hid : (loadFacts env tenant hints user).userDepartmentId =
      (wholeFacts env tenant hints user).userDepartmentId := rfl
  unfold department
  rw [hid]
  cases hdepartment : (wholeFacts env tenant hints user).userDepartmentId with
  | none => rfl
  | some id =>
      have hsource : ("department", id.text) ∈ askedSources env tenant hints user := by
        unfold askedSources sourcesOf
        rw [show (departmentOf tenant (agentOf env tenant hints).1 user).1 = some id from hdepartment]
        simp
      rw [Option.map_some, Option.map_some, nodeOf_loaded env tenant hints user _ _ _ hsource]
      refine congrArg _ (congrArg _ (codeNode_loaded env tenant hints user _ _ fun found hfound => ?_))
      exact List.mem_filterMap.mpr ⟨_, List.mem_cons_of_mem _ List.mem_cons_self, hfound⟩

theorem costCentre_loaded (hagent : (agentOf env tenant hints).1 ≠ none) :
    costCentre env (loadFacts env tenant hints user) = costCentre env (wholeFacts env tenant hints user) := by
  have hfacts : (loadFacts env tenant hints user).agent = (wholeFacts env tenant hints user).agent := rfl
  unfold costCentre
  rw [hfacts]
  cases hagentFacts : (wholeFacts env tenant hints user).agent with
  | none => rfl
  | some agent =>
      have hrow : (agentOf env tenant hints).2 = some agent := hagentFacts
      rw [Option.bind_some, Option.bind_some]
      cases hcentre : agent.costCenterId with
      | none => rfl
      | some id =>
          have hsource : ("cost_center", id.text) ∈ askedSources env tenant hints user := by
            obtain ⟨agentId, hid⟩ := Option.ne_none_iff_exists'.mp hagent
            unfold askedSources sourcesOf
            rw [hid, hrow, Option.bind_some, hcentre]
            simp
          rw [Option.map_some, Option.map_some, nodeOf_loaded env tenant hints user _ _ _ hsource]
          refine congrArg _ (congrArg _ (codeNode_loaded env tenant hints user _ _ fun found hfound => ?_))
          refine List.mem_filterMap.mpr ⟨code env agent.costCenterCode, ?_, hfound⟩
          rw [hrow, Option.bind_some]
          exact List.mem_cons_self

theorem application_asked :
    ("application", applicationOf env hints.application) ∈ askedSources env tenant hints user :=
  List.mem_append_left _ (List.mem_append_left _ List.mem_cons_self)

theorem agent_asked (id : Uuid) (hagent : (agentOf env tenant hints).1 = some id) :
    ("agent", id.text) ∈ askedSources env tenant hints user := by
  unfold askedSources sourcesOf
  rw [hagent]
  simp

theorem workflow_asked (workflow : Uuid) (hagent : (agentOf env tenant hints).1 = none)
    (hworkflow : asUuid env hints.workflowId = some workflow) :
    ("workflow", workflow.text) ∈ askedSources env tenant hints user := by
  unfold askedSources sourcesOf
  rw [hagent, hworkflow]
  simp

-- Reading only what the decision may ask for decides as the whole tables would.
theorem decide_loaded :
    decide env hints (loadFacts env tenant hints user) = decide env hints (wholeFacts env tenant hints user) := by
  have hagentUuid : (loadFacts env tenant hints user).agentUuid = (agentOf env tenant hints).1 := rfl
  have hagentUuid' : (wholeFacts env tenant hints user).agentUuid = (agentOf env tenant hints).1 := rfl
  have hworkflowUuid : (loadFacts env tenant hints user).workflowUuid = asUuid env hints.workflowId := rfl
  have hworkflowUuid' : (wholeFacts env tenant hints user).workflowUuid = asUuid env hints.workflowId := rfl
  have happlication := nodeOf_loaded env tenant hints user _ _ "application_mapping"
    (application_asked env tenant hints user)
  unfold decide applicationNode
  rw [hagentUuid, hagentUuid', hworkflowUuid, hworkflowUuid', happlication]
  cases hagent : (agentOf env tenant hints).1 with
  | some id =>
      have hasked := agent_asked env tenant hints user id hagent
      simp only []
      rw [nodeOf_loaded env tenant hints user _ _ _ hasked,
        costCentre_loaded env tenant hints user (by rw [hagent]; simp)]
      exact congrArg _ (mappings_loaded env tenant hints user _ _ hasked)
  | none =>
      rw [department_loaded env tenant hints user]
      cases hworkflow : asUuid env hints.workflowId with
      | none => rfl
      | some workflow =>
          have hasked := workflow_asked env tenant hints user workflow hagent hworkflow
          simp only []
          rw [nodeOf_loaded env tenant hints user _ _ _ hasked]
          exact congrArg _ (mappings_loaded env tenant hints user _ _ hasked)

theorem resolvedFrom_loaded (businessUnit : Option Uuid) :
    resolvedFrom env hints (loadFacts env tenant hints user) businessUnit =
      resolvedFrom env hints (wholeFacts env tenant hints user) businessUnit := by
  have happlication : applicationMapping env hints (loadFacts env tenant hints user) =
      applicationMapping env hints (wholeFacts env tenant hints user) :=
    mappings_loaded env tenant hints user _ _ (application_asked env tenant hints user)
  unfold resolvedFrom productLineOf useCaseOf
  rw [happlication, decide_loaded]
  rfl

end Loading

section Sharing

variable (env : ResolverEnv)

-- An agent hint that `loadFacts` drops: its agent is not there, or never runs.
def HintDropped (tenant : Tenant) (hints : Hints) : Prop :=
  (asUuid env hints.agentId).isSome = true ∧ (agentOf env tenant hints).1 = none

-- The node of the workflow's or the application's own mapping.
def sourceNode (tenant : Tenant) (hints : Hints) : Option Attribution :=
  let tables := wholeFacts env tenant hints none
  (nodeOf tables "workflow" ((asUuid env hints.workflowId).map Uuid.text) "workflow_mapping").or
    (applicationNode env hints tables)

-- Where a user's department puts a record that no such mapping places.
def standing (tenant : Tenant) (hints : Hints) (user : Option Uuid) : Attribution :=
  let fallback :=
    if asUuid env hints.workflowId = none ∧ applicationOf env hints.application = "system" ∧ user = none then "no_source"
    else "no_mapping"
  (department env (wholeFacts env tenant hints user)).getD ⟨none, none, some fallback⟩

def ownVersion (tenant : Tenant) (hints : Hints) : Option String :=
  (truthy ((agentOf env tenant hints).2.bind AgentFacts.version)).map (cut 20)

def hintedVersion (hints : Hints) : Option String := (truthy hints.agentVersion).map (cut 20)

theorem sourceNode_eq (tenant : Tenant) (hints : Hints) (user : Option Uuid) (facts : Facts)
    (hf : facts = wholeFacts env tenant hints user) :
    sourceNode env tenant hints =
      (nodeOf facts "workflow" ((asUuid env hints.workflowId).map Uuid.text) "workflow_mapping").or
        (applicationNode env hints facts) := by
  rw [hf]
  rfl

theorem decide_dropped (tenant : Tenant) (hints : Hints) (user : Option Uuid)
    (hd : (agentOf env tenant hints).1 = none) :
    (decide env hints (wholeFacts env tenant hints user)).1 =
      (sourceNode env tenant hints).getD (standing env tenant hints user) := by
  have hagent : (wholeFacts env tenant hints user).agentUuid = none := hd
  have hworkflowUuid : (wholeFacts env tenant hints user).workflowUuid = asUuid env hints.workflowId := rfl
  have huser : (wholeFacts env tenant hints user).userUuid = user := rfl
  rw [sourceNode_eq env tenant hints user _ rfl]
  unfold decide standing
  rw [hagent, hworkflowUuid, huser]
  cases hworkflow : asUuid env hints.workflowId with
  | none => simp [nodeOf, Option.getD_or]
  | some workflow => simp [Option.getD_or]

-- What two calls that share a key have in common.
structure SharesKey (first later : Hints) (firstUser laterUser : Option Uuid) : Prop where
  agent : asUuid env first.agentId = asUuid env later.agentId
  application : applicationOf env first.application = applicationOf env later.application
  workflow : asUuid env first.workflowId = asUuid env later.workflowId
  user : asUuid env later.agentId = none → firstUser = laterUser
  useCase : boundedLabel env (some first.defaultUseCase) = boundedLabel env (some later.defaultUseCase)
  origin : first.origin = later.origin

theorem uuidText_injective : Function.Injective uuidText := by
  intro a b h
  unfold uuidText at h
  cases a with
  | none =>
      cases b with
      | none => rfl
      | some b => exact absurd h.symm b.nonempty
  | some a =>
      cases b with
      | none => exact absurd h a.nonempty
      | some b => exact congrArg some (Uuid.ext h)

theorem sharesKey_of_cacheKey (a b : Uuid) (first later : Hints)
    (firstUser laterUser : Option Uuid)
    (hk : cacheKey env a first firstUser = cacheKey env b later laterUser) :
    a = b ∧ SharesKey env first later firstUser laterUser := by
  simp only [cacheKey, CacheKey.mk.injEq] at hk
  obtain ⟨htenant, hagent, happlication, hworkflow, huser, huseCase, horigin⟩ := hk
  have hagent := uuidText_injective hagent
  refine ⟨Uuid.ext htenant, hagent, happlication, uuidText_injective hworkflow, ?_, huseCase, horigin⟩
  intro hnone
  rw [hagent, hnone] at huser
  exact uuidText_injective huser

variable (tenant : Tenant) (first later : Hints) (firstUser laterUser : Option Uuid)

theorem agentOf_shared (hs : SharesKey env first later firstUser laterUser) :
    agentOf env tenant first = agentOf env tenant later := by
  unfold agentOf
  rw [hs.agent, hs.origin]

theorem wholeFacts_shared (hs : SharesKey env first later firstUser laterUser) (user : Option Uuid) :
    wholeFacts env tenant first user = wholeFacts env tenant later user := by
  unfold wholeFacts
  rw [agentOf_shared env tenant first later firstUser laterUser hs, hs.workflow]

theorem decide_shared (hs : SharesKey env first later firstUser laterUser) (facts : Facts) :
    decide env first facts = decide env later facts := by
  unfold decide applicationNode
  rw [hs.application]

theorem useCaseOf_shared (hs : SharesKey env first later firstUser laterUser) (facts : Facts)
    (labelMapping : Option MappingFacts) :
    useCaseOf env first facts labelMapping = useCaseOf env later facts labelMapping := by
  unfold useCaseOf applicationMapping
  rw [hs.application]
  simp only [List.map_cons, hs.useCase]

theorem productLineOf_shared (hs : SharesKey env first later firstUser laterUser) (facts : Facts)
    (labelMapping : Option MappingFacts) :
    productLineOf env first facts labelMapping = productLineOf env later facts labelMapping := by
  unfold productLineOf applicationMapping
  rw [hs.application]

-- The user has no part in the labels.
theorem decide_snd_user (hints : Hints) :
    (decide env hints (wholeFacts env tenant hints firstUser)).2 =
      (decide env hints (wholeFacts env tenant hints laterUser)).2 := by
  have hagent : ∀ user, (wholeFacts env tenant hints user).agentUuid = (agentOf env tenant hints).1 := fun _ => rfl
  have hworkflow : ∀ user, (wholeFacts env tenant hints user).workflowUuid = asUuid env hints.workflowId := fun _ => rfl
  unfold decide
  simp only [hagent, hworkflow]
  cases (agentOf env tenant hints).1 with
  | some id => rfl
  | none =>
      cases asUuid env hints.workflowId with
      | some workflow => rfl
      | none => rfl

-- Nor in the attribution of an agent's record.
theorem decide_fst_of_agent (hints : Hints) (ha : (agentOf env tenant hints).1 ≠ none) :
    (decide env hints (wholeFacts env tenant hints firstUser)).1 =
      (decide env hints (wholeFacts env tenant hints laterUser)).1 := by
  obtain ⟨id, hid⟩ := Option.ne_none_iff_exists'.mp ha
  have hagent : ∀ user, (wholeFacts env tenant hints user).agentUuid = some id := fun _ => hid
  unfold decide
  simp only [hagent]
  rfl

def AttributionKept (hints : Hints) : Prop :=
  ¬ HintDropped env tenant hints ∨ (sourceNode env tenant hints).isSome = true ∨
    standing env tenant hints firstUser = standing env tenant hints laterUser

def VersionKept : Prop :=
  (hintedVersion later).isSome = true ∨ hintedVersion first = none ∨
    hintedVersion first = ownVersion env tenant later

theorem attribution_kept_iff (hints : Hints) (hu : asUuid env hints.agentId = none → firstUser = laterUser) :
    (decide env hints (wholeFacts env tenant hints firstUser)).1 =
        (decide env hints (wholeFacts env tenant hints laterUser)).1 ↔
      AttributionKept env tenant firstUser laterUser hints := by
  unfold AttributionKept
  by_cases hd : HintDropped env tenant hints
  · rw [decide_dropped env tenant hints _ hd.2, decide_dropped env tenant hints _ hd.2]
    cases hnode : sourceNode env tenant hints with
    | some node => simp
    | none => simp [hd]
  · refine iff_of_true ?_ (.inl hd)
    by_cases hagent : (agentOf env tenant hints).1 = none
    · have hhint : asUuid env hints.agentId = none := by
        rw [← Option.not_isSome_iff_eq_none]
        exact fun h => hd ⟨h, hagent⟩
      rw [hu hhint]
    · exact decide_fst_of_agent env tenant firstUser laterUser hints hagent

theorem hinted_or_eq_iff (first later own : Option String) :
    later.or (first.or own) = later.or (later.or own) ↔ later.isSome = true ∨ first = none ∨ first = own := by
  cases later with
  | some later => simp
  | none =>
      cases first with
      | none => simp
      | some first => simp

end Sharing

section Calls

variable (env : ResolverEnv) (tenants : Uuid → Tenant)

-- `resolve` as a function behind a memo.
def memoised : Memoised Call CacheKey Resolved Resolved where
  life := CACHE_TTL_SECONDS
  room := CACHE_MAX
  key := fun call => cacheKey env call.tenantId call.hints (call.user env tenants)
  time := Call.now
  aside := fun call =>
    if (call.tenant tenants).readable then none
    else some (failed env call.hints (asUuid env call.hints.agentId) (asUuid env call.hints.initiatingUserId))
  compute := computeResolved env tenants
  tell := fun resolved call => perEvent resolved call.hints (call.user env tenants)

theorem resolve_eq (cache : Cache) (call : Call) :
    resolve env tenants cache call = (memoised env tenants).serve cache call := by
  unfold resolve Memoised.serve memoised
  by_cases hreadable : (call.tenant tenants).readable
  · simp only [hreadable, if_true]
    cases recalled CACHE_TTL_SECONDS cache call.now (cacheKey env call.tenantId call.hints (call.user env tenants)) with
    | none => rfl
    | some hit => rfl
  · simp only [hreadable]
    rfl

theorem resolveAll_eq (cache : Cache) (calls : List Call) :
    resolveAll env tenants cache calls = (memoised env tenants).serveAll cache calls := by
  induction calls generalizing cache with
  | nil => rfl
  | cons call rest ih => rw [resolveAll, Memoised.serveAll, resolve_eq, ih]

theorem computeResolved_eq (call : Call) :
    computeResolved env tenants call =
      resolvedFrom env call.hints (wholeFacts env (call.tenant tenants) call.hints (call.user env tenants))
        ((decide env call.hints (wholeFacts env (call.tenant tenants) call.hints
          (call.user env tenants))).1.orgNodeId.bind (call.tenant tenants).businessUnitOf) := by
  simp only [computeResolved, decide_loaded, resolvedFrom_loaded]

section Told

variable (first later : Call)

theorem agentVersion_told :
    (perEvent (computeResolved env tenants first) later.hints (later.user env tenants)).agentVersion =
      (hintedVersion later.hints).or
        ((hintedVersion first.hints).or (ownVersion env (first.tenant tenants) first.hints)) := by
  rw [computeResolved_eq]
  unfold hintedVersion ownVersion
  rw [← Option.map_or]
  rfl

-- A call computes what its key and its user say, and its own version.
theorem computeResolved_shared (ht : first.tenantId = later.tenantId)
    (hs : SharesKey env first.hints later.hints (first.user env tenants)
      (later.user env tenants)) :
    computeResolved env tenants first =
      resolvedFrom env first.hints (wholeFacts env (later.tenant tenants) later.hints (first.user env tenants))
        ((decide env later.hints (wholeFacts env (later.tenant tenants) later.hints
          (first.user env tenants))).1.orgNodeId.bind (later.tenant tenants).businessUnitOf) := by
  have htenant : first.tenant tenants = later.tenant tenants := congrArg tenants ht
  rw [computeResolved_eq, htenant, wholeFacts_shared env _ _ _ _ _ hs, decide_shared env _ _ _ _ hs]

theorem attribution_told (ht : first.tenantId = later.tenantId)
    (hs : SharesKey env first.hints later.hints (first.user env tenants)
      (later.user env tenants)) :
    (perEvent (computeResolved env tenants first) later.hints (later.user env tenants)).toAttribution =
      (decide env later.hints (wholeFacts env (later.tenant tenants) later.hints (first.user env tenants))).1 := by
  rw [computeResolved_shared env tenants first later ht hs, ← decide_shared env _ _ _ _ hs]
  rfl

theorem ownVersion_shared (ht : first.tenantId = later.tenantId)
    (hs : SharesKey env first.hints later.hints (first.user env tenants)
      (later.user env tenants)) :
    ownVersion env (first.tenant tenants) first.hints = ownVersion env (later.tenant tenants) later.hints := by
  have htenant : first.tenant tenants = later.tenant tenants := congrArg tenants ht
  unfold ownVersion
  rw [htenant, agentOf_shared env _ _ _ _ _ hs]

-- What is told agrees in every part once it agrees on the version and the attribution.
theorem told_ext (ht : first.tenantId = later.tenantId)
    (hs : SharesKey env first.hints later.hints (first.user env tenants)
      (later.user env tenants))
    (hv : (perEvent (computeResolved env tenants first) later.hints (later.user env tenants)).agentVersion =
      (perEvent (computeResolved env tenants later) later.hints (later.user env tenants)).agentVersion)
    (ha : (decide env later.hints (wholeFacts env (later.tenant tenants) later.hints (first.user env tenants))).1 =
      (decide env later.hints (wholeFacts env (later.tenant tenants) later.hints (later.user env tenants))).1) :
    perEvent (computeResolved env tenants first) later.hints (later.user env tenants) =
      perEvent (computeResolved env tenants later) later.hints (later.user env tenants) := by
  have hdecide := Prod.ext ha
    (decide_snd_user env (later.tenant tenants) (first.user env tenants) (later.user env tenants) later.hints)
  rw [computeResolved_shared env tenants first later ht hs, computeResolved_eq] at hv ⊢
  have hattribution := decide_shared env _ _ _ _ hs
    (wholeFacts env (later.tenant tenants) later.hints (first.user env tenants))
  have hproduct := productLineOf_shared env _ _ _ _ hs
    (wholeFacts env (later.tenant tenants) later.hints (first.user env tenants))
  have huse := useCaseOf_shared env _ _ _ _ hs
    (wholeFacts env (later.tenant tenants) later.hints (first.user env tenants))
  unfold perEvent resolvedFrom at hv ⊢
  simp only [hattribution, hproduct, huse, hdecide, hs.application] at hv ⊢
  rw [hv]
  rfl

theorem told_eq_iff (ht : first.tenantId = later.tenantId)
    (hs : SharesKey env first.hints later.hints (first.user env tenants)
      (later.user env tenants)) :
    perEvent (computeResolved env tenants first) later.hints (later.user env tenants) =
        perEvent (computeResolved env tenants later) later.hints (later.user env tenants) ↔
      VersionKept env (later.tenant tenants) first.hints later.hints ∧
        AttributionKept env (later.tenant tenants) (first.user env tenants) (later.user env tenants) later.hints := by
  have hversion : (perEvent (computeResolved env tenants first) later.hints (later.user env tenants)).agentVersion =
      (perEvent (computeResolved env tenants later) later.hints (later.user env tenants)).agentVersion ↔
        VersionKept env (later.tenant tenants) first.hints later.hints := by
    rw [agentVersion_told, agentVersion_told, ownVersion_shared env tenants first later ht hs]
    exact hinted_or_eq_iff _ _ _
  have hattribution := attribution_kept_iff env (later.tenant tenants) (first.user env tenants)
    (later.user env tenants) later.hints hs.user
  constructor
  · intro h
    refine ⟨hversion.mp (by rw [h]), hattribution.mp ?_⟩
    rw [← attribution_told env tenants first later ht hs, h,
      attribution_told env tenants later later rfl ⟨rfl, rfl, rfl, fun _ => rfl, rfl, rfl⟩]
  · rintro ⟨hv, ha⟩
    exact told_ext env tenants first later ht hs (hversion.mpr hv) (hattribution.mpr ha)

end Told

-- The calls that are answered with the resolution another call left under their key, behind that call.
def reuses (calls : List Call) : List (Call × Call) := (memoised env tenants).reuses .empty calls

-- Every call returns what it returns with an empty cache, unless it is answered with a resolution that holds
-- another's version hint, or with the department of another's user.
theorem resolutions_kept_iff (calls : List Call) :
    resolveAll env tenants .empty calls = calls.map (fun call => (resolve env tenants .empty call).1) ↔
      ∀ reuse ∈ reuses env tenants calls,
        VersionKept env (reuse.2.tenant tenants) reuse.1.hints reuse.2.hints ∧
          AttributionKept env (reuse.2.tenant tenants) (reuse.1.user env tenants) (reuse.2.user env tenants)
            reuse.2.hints := by
  simp only [resolveAll_eq, resolve_eq]
  have hmemo := serveAll_eq_iff (memoised env tenants) .empty calls
  refine hmemo.trans (forall₂_congr fun reuse hr => ?_)
  have hkey := key_of_mem_reuses (memoised env tenants) .empty calls (filed_empty _) reuse hr
  obtain ⟨ht, hs⟩ := sharesKey_of_cacheKey env _ _ _ _ _ _ hkey
  exact told_eq_iff env tenants reuse.1 reuse.2 ht hs

section Sample

-- Texts of 36 characters are UUIDs, and every text is trimmed and in its case.
def sampleEnv : ResolverEnv where
  parseUuid := fun text =>
    if h : text ≠ "" then if text.length = 36 then some ⟨text, h⟩ else none else none
  strip := id
  lower := id
  upper := id
  environmentNow := "production"

def AGENT : String := "0b9d8a4e-6f5c-4b1e-9c3a-2d7f10e4a6b8"
def TENANT : Uuid := ⟨"5e1f7c20-94d3-4a6b-8f02-c7b1d9e3a450", by decide⟩
def ALICE : Uuid := ⟨"a1c4e7f0-25b8-4d63-9e1a-7f8c0b3d5e62", by decide⟩
def BOB : Uuid := ⟨"b2d5f801-36c9-4e74-8f2b-801d1c4e6f73", by decide⟩
def SALES : Uuid := ⟨"c3e6a912-47da-4f85-903c-912e2d5f7084", by decide⟩
def SUPPORT : Uuid := ⟨"d4f7ba23-58eb-4096-a14d-a23f3e608195", by decide⟩

-- An agent, and two users of two departments, whose nodes carry their codes.
def sampleTenant (status : String) : Tenant where
  readable := true
  region := some "IN"
  agent := fun _ => some ⟨some "2.1.0", some "kyc_analyst", some status, none, none, some "high", none⟩
  userDepartment := fun user =>
    if user = ALICE then (some SALES, some "SALES") else if user = BOB then (some SUPPORT, some "SUPPORT")
    else (none, none)
  mappingRows := []
  nodes := [⟨SALES, "SALES", "department", true⟩, ⟨SUPPORT, "SUPPORT", "department", true⟩]
  initiator := fun _ => none
  businessUnitOf := fun _ => none

def sampleCall (version : Option String) (user : Uuid) : Call :=
  ⟨TENANT, ⟨some AGENT, version, "chat", "", none, none, none, some user.text, "hook"⟩, 1⟩

-- A version that was hinted once is told to a call without one, and a retired agent's record is charged to the
-- department of another user.
theorem resolution_leaks :
    (resolveAll sampleEnv (fun _ => sampleTenant "active") .empty
        [sampleCall (some "9") ALICE, sampleCall none ALICE] ≠
      [sampleCall (some "9") ALICE, sampleCall none ALICE].map fun call =>
        (resolve sampleEnv (fun _ => sampleTenant "active") .empty call).1) ∧
    resolveAll sampleEnv (fun _ => sampleTenant "retired") .empty [sampleCall none ALICE, sampleCall none BOB] ≠
      [sampleCall none ALICE, sampleCall none BOB].map fun call =>
        (resolve sampleEnv (fun _ => sampleTenant "retired") .empty call).1 := by
  decide +kernel

end Sample

end Calls

end AgenticOrg.Spend.Resolver
