import AgenticOrg.Lib.Memo
import AgenticOrg.Spend.Rates

namespace AgenticOrg.Spend.Resolver

open OrderedDict Memos

section Data

-- A UUID by its text, which is never empty.
@[ext] structure Uuid where
  text : String
  nonempty : text ≠ ""
  deriving DecidableEq

structure Hints where
  agentId : Option String
  agentVersion : Option String
  application : String
  defaultUseCase : String
  workflowId : Option String
  workflowRunId : Option String
  runId : Option String
  initiatingUserId : Option String
  origin : String
  deriving DecidableEq

@[ext] structure Attribution where
  orgNodeId : Option Uuid
  attributionPath : Option String
  unattributedReason : Option String
  deriving DecidableEq

@[ext] structure Resolved extends Attribution where
  businessUnitNodeId : Option Uuid
  productLine : Option String
  useCase : String
  agentId : Option Uuid
  agentVersion : Option String
  riskTier : Option String
  region : Option String
  environment : String
  initiatingUserId : Option Uuid
  workflowId : Option Uuid
  runId : Option String
  application : String
  deriving DecidableEq

structure AgentFacts where
  version : Option String
  agentType : Option String
  status : Option String
  costCenterId : Option Uuid
  costCenterCode : Option String
  riskTier : Option String
  registryUseCase : Option String
  deriving DecidableEq

structure MappingFacts where
  orgNodeId : Option Uuid
  productLine : Option String
  useCase : Option String
  deriving DecidableEq

structure NodeFacts where
  id : Uuid
  code : String
  kind : String
  active : Bool
  deriving DecidableEq

-- A source type and its reference.
abbrev Source := String × String

structure Facts where
  agentUuid : Option Uuid
  agent : Option AgentFacts
  workflowUuid : Option Uuid
  userUuid : Option Uuid
  userDepartmentId : Option Uuid
  userDepartmentCode : Option String
  mappings : Dict Source MappingFacts
  nodesById : Dict Uuid NodeFacts
  nodesByCode : Dict String NodeFacts
  region : Option String
  environment : String

structure MappingRow where
  source : Source
  facts : MappingFacts
  active : Bool
  deriving DecidableEq

-- What a tenant's tables answer: its data region, an agent's row, a user's department with its code, the initiator
-- of a workflow run, and the nearest business unit at or above a node. Some tenant's tables cannot be read.
structure Tenant where
  readable : Bool
  region : Option String
  agent : Uuid → Option AgentFacts
  userDepartment : Uuid → Option Uuid × Option String
  mappingRows : List MappingRow
  nodes : List NodeFacts
  initiator : Uuid → Option Uuid
  businessUnitOf : Uuid → Option Uuid

-- What is asked of the libraries: `uuid.UUID` of a text, the string methods, and the configured environment.
structure ResolverEnv where
  parseUuid : String → Option Uuid
  strip : String → String
  lower : String → String
  upper : String → String
  environmentNow : String

structure Call where
  tenantId : Uuid
  hints : Hints
  now : ℚ
  deriving DecidableEq

def CACHE_TTL_SECONDS : ℚ := 60
def CACHE_MAX : ℕ := 4096

def NEVER_RUNS : List String := ["deleted", "retired"]

end Data

section Texts

variable (env : ResolverEnv)

-- A text that is there and is not empty.
def truthy (value : Option String) : Option String := value.filter (· ≠ "")

def cut (size : ℕ) (text : String) : String := String.ofList (text.toList.take size)

def asUuid (value : Option String) : Option Uuid := (truthy value).bind fun text => env.parseUuid (env.strip text)

def applicationOf (value : String) : String :=
  let name := env.lower (env.strip value)
  if name ∈ APPLICATIONS then name else "system"

def isCodeChar (c : Char) : Bool := c.isUpper || c.isDigit || ['_', '.', ':', '/', '-'].contains c

-- `^[A-Z0-9][A-Z0-9_.:/-]{0,63}$`.
def isCode : List Char → Bool
  | [] => false
  | c :: rest => (c.isUpper || c.isDigit) && rest.all isCodeChar && rest.length ≤ 63

def code (value : Option String) : Option String :=
  let normal := env.upper (env.strip (value.getD ""))
  if isCode normal.toList then some normal else none

def isLabelChar (c : Char) : Bool := c.isLower || c.isDigit || ['_', '.', ':', '-'].contains c

-- `[^a-z0-9_.:-]+` becomes `-`.
def dashed (inRun : Bool) : List Char → List Char
  | [] => []
  | c :: rest =>
      if isLabelChar c then c :: dashed false rest
      else if inRun then dashed true rest
      else '-' :: dashed true rest

def stripDashes (text : List Char) : List Char := ((text.dropWhile (· == '-')).reverse.dropWhile (· == '-')).reverse

def MAX_LABEL : ℕ := 64

def label (value : Option String) : String :=
  String.ofList ((stripDashes (dashed false (env.lower (env.strip (value.getD ""))).toList)).take MAX_LABEL)

def boundedLabel (value : Option String) : String := cut 64 (label env value)

end Texts

section Decision

variable (env : ResolverEnv)

def fromNode (node : Option NodeFacts) (path : String) : Option Attribution :=
  node.map fun node => if node.active then ⟨some node.id, some path, none⟩ else ⟨none, none, some "inactive_node"⟩

def nodeOf (facts : Facts) (sourceType : String) (ref : Option String) (path : String) : Option Attribution :=
  ref.bind fun ref =>
    (facts.mappings.get? (sourceType, ref)).bind fun mapping =>
      mapping.orgNodeId.bind fun id => fromNode (facts.nodesById.get? id) path

-- A label without a mapping: the node of its code.
def codeNode (facts : Facts) (value : Option String) (path : String) : Attribution :=
  (fromNode ((truthy (code env value)).bind facts.nodesByCode.get?) path).getD ⟨none, none, some "unknown_label"⟩

def department (facts : Facts) : Option Attribution :=
  facts.userDepartmentId.map fun id =>
    (nodeOf facts "department" (some id.text) "department_mapping").getD
      (codeNode env facts facts.userDepartmentCode "department_code")

def costCentre (facts : Facts) : Option Attribution :=
  facts.agent.bind fun agent =>
    agent.costCenterId.map fun id =>
      (nodeOf facts "cost_center" (some id.text) "cost_centre_mapping").getD
        (codeNode env facts agent.costCenterCode "cost_centre_code")

def applicationNode (hints : Hints) (facts : Facts) : Option Attribution :=
  nodeOf facts "application" (some (applicationOf env hints.application)) "application_mapping"

-- The attribution, and the mapping that gives the product line and use case before the application's.
def decide (hints : Hints) (facts : Facts) : Attribution × Option MappingFacts :=
  match facts.agentUuid with
  | some agent =>
      (((nodeOf facts "agent" (some agent.text) "agent_mapping").or
          ((costCentre env facts).or (applicationNode env hints facts))).getD ⟨none, none, some "no_mapping"⟩,
        facts.mappings.get? ("agent", agent.text))
  | none =>
      match facts.workflowUuid with
      | some workflow =>
          (((nodeOf facts "workflow" (some workflow.text) "workflow_mapping").or
              ((applicationNode env hints facts).or (department env facts))).getD ⟨none, none, some "no_mapping"⟩,
            facts.mappings.get? ("workflow", workflow.text))
      | none =>
          let fallback :=
            if applicationOf env hints.application = "system" ∧ facts.userUuid = none then "no_source"
            else "no_mapping"
          (((applicationNode env hints facts).or (department env facts)).getD ⟨none, none, some fallback⟩, none)

def applicationMapping (hints : Hints) (facts : Facts) : Option MappingFacts :=
  facts.mappings.get? ("application", applicationOf env hints.application)

def useCaseOf (hints : Hints) (facts : Facts) (labelMapping : Option MappingFacts) : String :=
  let candidates := [labelMapping.bind MappingFacts.useCase,
    (applicationMapping env hints facts).bind MappingFacts.useCase,
    facts.agent.bind AgentFacts.registryUseCase, facts.agent.bind AgentFacts.agentType, some hints.defaultUseCase]
  ((candidates.map (boundedLabel env)).find? (· ≠ "")).getD "unattributed"

def productLineOf (hints : Hints) (facts : Facts) (labelMapping : Option MappingFacts) : Option String :=
  let candidates := [labelMapping.bind MappingFacts.productLine,
    (applicationMapping env hints facts).bind MappingFacts.productLine]
  (candidates.findSome? truthy).map (cut 64)

def resolvedFrom (hints : Hints) (facts : Facts) (businessUnit : Option Uuid) : Resolved where
  toAttribution := (decide env hints facts).1
  businessUnitNodeId := if (decide env hints facts).1.orgNodeId.isSome then businessUnit else none
  productLine := productLineOf env hints facts (decide env hints facts).2
  useCase := useCaseOf env hints facts (decide env hints facts).2
  agentId := facts.agentUuid
  agentVersion := ((truthy hints.agentVersion).or (truthy (facts.agent.bind AgentFacts.version))).map (cut 20)
  riskTier := (facts.agent.bind AgentFacts.riskTier).filter (· ∈ RISK_TIERS)
  region := truthy facts.region
  environment := facts.environment
  initiatingUserId := facts.userUuid
  workflowId := facts.workflowUuid
  runId := (truthy hints.runId).map (cut 64)
  application := applicationOf env hints.application

-- A record whose attribution could not be read.
def failed (hints : Hints) (agentUuid userUuid : Option Uuid) : Resolved where
  orgNodeId := none
  attributionPath := none
  unattributedReason := some "resolver_failed"
  businessUnitNodeId := none
  productLine := none
  useCase := (truthy (some (boundedLabel env (some hints.defaultUseCase)))).getD "unattributed"
  agentId := agentUuid
  agentVersion := (truthy hints.agentVersion).map (cut 20)
  riskTier := none
  region := none
  environment := env.environmentNow
  initiatingUserId := userUuid
  workflowId := asUuid env hints.workflowId
  runId := (truthy hints.runId).map (cut 64)
  application := applicationOf env hints.application

end Decision

section Loaders

variable (env : ResolverEnv) (tenant : Tenant)

def initiatingUser (hints : Hints) : Option Uuid :=
  (asUuid env hints.initiatingUserId).or ((asUuid env hints.workflowRunId).bind tenant.initiator)

def mappings (sources : List Source) : Dict Source MappingFacts :=
  .ofList ((tenant.mappingRows.filter fun row => row.active && sources.contains row.source).map
    fun row => (row.source, row.facts))

-- The nodes of these ids and of these codes, by id and by code.
def nodes (ids : List Uuid) (codes : List String) : Dict Uuid NodeFacts × Dict String NodeFacts :=
  let found := tenant.nodes.filter fun node => ids.contains node.id || codes.contains node.code
  (.ofList (found.map fun node => (node.id, node)), .ofList (found.map fun node => (node.code, node)))

def neverRuns (agent : AgentFacts) : Bool := NEVER_RUNS.contains (agent.status.getD "")

-- The agent of the hint, and its row. Backfill keeps the id of an agent that is not there.
def agentOf (hints : Hints) : Option Uuid × Option AgentFacts :=
  match asUuid env hints.agentId with
  | none => (none, none)
  | some id =>
      if hints.origin ≠ "backfill" ∧ (tenant.agent id).all neverRuns = true then (none, none)
      else (some id, tenant.agent id)

def departmentOf (agentUuid userUuid : Option Uuid) : Option Uuid × Option String :=
  match agentUuid with
  | some _ => (none, none)
  | none => (userUuid.map tenant.userDepartment).getD (none, none)

def sourcesOf (hints : Hints) (agentUuid : Option Uuid) (agent : Option AgentFacts) (departmentId : Option Uuid) :
    List Source :=
  [("application", applicationOf env hints.application)] ++
    (match agentUuid with
      | some id =>
          ("agent", id.text) :: ((agent.bind AgentFacts.costCenterId).map fun centre => ("cost_center", centre.text)).toList
      | none => ((asUuid env hints.workflowId).map fun workflow => ("workflow", workflow.text)).toList) ++
    (departmentId.map fun id => ("department", id.text)).toList

def codesOf (agent : Option AgentFacts) (departmentCode : Option String) : List String :=
  [agent.bind fun agent => code env agent.costCenterCode, code env departmentCode].filterMap truthy

def idsOf (mappings : Dict Source MappingFacts) : List Uuid :=
  mappings.entries.filterMap fun entry => entry.2.orgNodeId

def loadFacts (hints : Hints) (userUuid : Option Uuid) : Facts :=
  let agent := agentOf env tenant hints
  let department := departmentOf tenant agent.1 userUuid
  let found := mappings tenant (sourcesOf env hints agent.1 agent.2 department.1)
  let placed := nodes tenant (idsOf found) (codesOf env agent.2 department.2)
  { agentUuid := agent.1
    agent := agent.2
    workflowUuid := asUuid env hints.workflowId
    userUuid := userUuid
    userDepartmentId := department.1
    userDepartmentCode := department.2
    mappings := found
    nodesById := placed.1
    nodesByCode := placed.2
    region := tenant.region
    environment := env.environmentNow }

end Loaders

section Cache

variable (env : ResolverEnv)

structure CacheKey where
  tenantId : String
  agent : String
  application : String
  workflow : String
  user : String
  useCase : String
  origin : String
  deriving DecidableEq

def uuidText (id : Option Uuid) : String := (id.map Uuid.text).getD ""

def cacheKey (tenantId : Uuid) (hints : Hints) (userUuid : Option Uuid) : CacheKey where
  tenantId := tenantId.text
  agent := uuidText (asUuid env hints.agentId)
  application := applicationOf env hints.application
  workflow := uuidText (asUuid env hints.workflowId)
  user := if (asUuid env hints.agentId).isSome then "" else uuidText userUuid
  useCase := boundedLabel env (some hints.defaultUseCase)
  origin := hints.origin

def perEvent (resolved : Resolved) (hints : Hints) (userUuid : Option Uuid) : Resolved :=
  { resolved with
    runId := (truthy hints.runId).map (cut 64)
    agentVersion := ((truthy hints.agentVersion).map (cut 20)).or resolved.agentVersion
    initiatingUserId := userUuid }

abbrev Cache := Memo CacheKey Resolved

variable (tenants : Uuid → Tenant)

def Call.tenant (call : Call) : Tenant := tenants call.tenantId

def Call.user (call : Call) : Option Uuid := initiatingUser env (call.tenant tenants) call.hints

-- What a call without a hit computes and remembers.
def computeResolved (call : Call) : Resolved :=
  let facts := loadFacts env (call.tenant tenants) call.hints (call.user env tenants)
  resolvedFrom env call.hints facts ((decide env call.hints facts).1.orgNodeId.bind (call.tenant tenants).businessUnitOf)

def resolve (cache : Cache) (call : Call) : Resolved × Cache :=
  if (call.tenant tenants).readable then
    let user := call.user env tenants
    let key := cacheKey env call.tenantId call.hints user
    match recalled CACHE_TTL_SECONDS cache call.now key with
    | some hit => (perEvent hit call.hints user, cache)
    | none =>
        let resolved := computeResolved env tenants call
        (perEvent resolved call.hints user, remember CACHE_MAX cache call.now key resolved)
  else
    (failed env call.hints (asUuid env call.hints.agentId) (asUuid env call.hints.initiatingUserId), cache)

def resolveAll (cache : Cache) : List Call → List Resolved
  | [] => []
  | call :: rest => (resolve env tenants cache call).1 :: resolveAll (resolve env tenants cache call).2 rest

end Cache

end AgenticOrg.Spend.Resolver
