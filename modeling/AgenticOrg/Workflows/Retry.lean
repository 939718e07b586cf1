import AgenticOrg.Workflows.Definition

namespace AgenticOrg.Workflows

open Directive

def READ_ONLY_ACTION_PREFIXES : List String :=
  ["analy", "audit", "check", "classif", "compare", "describe", "detect", "estimate", "evaluate",
    "extract", "fetch", "find", "forecast", "get", "identify", "list", "lookup", "monitor", "plan",
    "query", "rank", "read", "recommend", "reconcile", "research", "retrieve", "review", "score",
    "search", "summar", "validate", "verify"]

def WRITE_ACTION_HINTS : List String :=
  ["activate", "approve", "cancel", "charge", "create", "delete", "deploy", "disburse", "execute",
    "file", "initiate", "launch", "mutate", "notify", "pay", "post", "publish", "queue", "refund",
    "release", "remove", "schedule", "send", "set_", "setup", "spend", "submit", "sync", "transfer",
    "update", "upload", "upsert", "write"]

def CONNECTOR_TOOL_ALIASES : List (String × String × String) :=
  [("fetch_hubspot_contacts", "hubspot", "list_contacts"),
    ("get_hubspot_contacts", "hubspot", "list_contacts"),
    ("list_hubspot_contacts", "hubspot", "list_contacts"),
    ("retrieve_hubspot_contacts", "hubspot", "list_contacts"),
    ("hubspot_contact_retrieval", "hubspot", "list_contacts"),
    ("fetch_hubspot_deals", "hubspot", "list_deals"),
    ("get_hubspot_deals", "hubspot", "list_deals"),
    ("list_hubspot_deals", "hubspot", "list_deals"),
    ("retrieve_hubspot_deals", "hubspot", "list_deals"),
    ("hubspot_deal_retrieval", "hubspot", "list_deals")]

def normalizeKey (text : String) : String :=
  String.ofList ((lower (strip text.toList)).map fun c => if c = '-' ∨ c = ' ' then '_' else c)

-- `hint in text`
def occursIn (hint : List Char) : List Char → Bool
  | [] => hint.isEmpty
  | c :: text => hint.isPrefixOf (c :: text) || occursIn hint text

def isReadOnlyName (name : String) : Bool :=
  let normalized := (normalizeKey name).toList
  normalized ≠ [] &&
    !(WRITE_ACTION_HINTS.any fun hint => occursIn hint.toList normalized) &&
    READ_ONLY_ACTION_PREFIXES.any fun start => start.toList.isPrefixOf normalized

-- The first of the keys that has a text which is not empty: `step.get(a) or step.get(b)`.
def Step.firstText (step : Step) (keys : List String) : Option String :=
  (keys.filterMap step.text?).find? (· ≠ "")

def splitToolRef (value : String) : Option (String × String) :=
  let text := value.toList
  if text.contains ':' ∧ !("tool:".toList.isPrefixOf text) then
    some (normalizeKey (String.ofList (text.takeWhile (· ≠ ':'))),
      String.ofList (strip ((text.dropWhile (· ≠ ':')).drop 1)))
  else none

def connectorToolRefFromStep (step : Step) (allowActionTool : Bool) : Option (String × String) :=
  let connector := step.firstText ["connector", "connector_key"]
  let tool := step.firstText ["tool", "tool_name"]
  let action := step.firstText ["action"]
  let agent := step.firstText ["agent", "agent_type"]
  let stepId := if step.id.truthy then some step.id.display else none
  let alias? := [tool, action, agent, stepId].findSome? fun value =>
    (CONNECTOR_TOOL_ALIASES.find? (·.1 = normalizeKey (value.getD ""))).map Prod.snd
  match alias?, ([tool, action].filterMap id).findSome? splitToolRef, connector with
  | some found, _, _ => some found
  | none, some found, _ => some found
  | none, none, none => none
  | none, none, some connector =>
      match tool, action with
      | some tool, _ => some (normalizeKey connector, String.ofList (strip tool.toList))
      | none, some action =>
          if allowActionTool then some (normalizeKey connector, String.ofList (strip action.toList))
          else none
      | none, none => none

def stepIsRetryable (step : Step) : Bool :=
  let stepType := String.ofList (lower (strip step.stepType.text.toList))
  let ref := connectorToolRefFromStep step (stepType = "connector_tool")
  let named := ref.any fun (connector, tool) => connector ≠ "" && tool ≠ ""
  let keyed := (step.firstText ["idempotency_key"]).isSome
  if ["notify", "sub_workflow", "human_in_loop", "wait", "wait_for_event"].contains stepType then false
  else if stepType = "http" then
    (strip ((step.text? "method").getD "GET").toList).map Char.toUpper = "GET".toList
  else if stepType = "connector_tool" ∨ stepType = "agent" ∧ named then
    keyed || isReadOnlyName ((ref.map Prod.snd).getD "")
  else if stepType = "agent" then keyed || isReadOnlyName ((step.text? "action").getD "process")
  else false

end AgenticOrg.Workflows
