import AgenticOrg.Workflows.Values
import Mathlib.Algebra.Order.Field.Rat

namespace AgenticOrg.Workflows

-- `WorkflowParser.VALID_STEP_TYPES`; `other` is any text outside the set.
inductive StepType where
  | agent
  | caseAgent
  | condition
  | humanInLoop
  | parallel
  | loop
  | transform
  | connectorTool
  | notify
  | subWorkflow
  | wait
  | waitForEvent
  | collaboration
  | other (text : String)
  deriving DecidableEq

def StepType.valid : StepType → Bool
  | .other _ => false
  | _ => true

def StepType.text : StepType → String
  | .agent => "agent"
  | .caseAgent => "case_agent"
  | .condition => "condition"
  | .humanInLoop => "human_in_loop"
  | .parallel => "parallel"
  | .loop => "loop"
  | .transform => "transform"
  | .connectorTool => "connector_tool"
  | .notify => "notify"
  | .subWorkflow => "sub_workflow"
  | .wait => "wait"
  | .waitForEvent => "wait_for_event"
  | .collaboration => "collaboration"
  | .other text => text

-- One entry of `definition["steps"]`. `type` is `none` when the key is missing
-- and stands for `"agent"` then; `dependsOn` is `none` when the value cannot be
-- iterated over as ids; `onFailure` is `str(step.get("on_failure", ""))`;
-- `texts` holds the text fields the retry rule reads and `config` whatever only
-- the step's own handler reads. Steps that a replan added are marked `replanned`.
structure Step where
  id : Scalar
  type : Option StepType := none
  dependsOn : Option (List Scalar) := some []
  onFailure : String := ""
  optional : Bool := false
  allowFailure : Bool := false
  truePath : Option Scalar := none
  falsePath : Option Scalar := none
  texts : List (String × String) := []
  config : Json := .obj []
  replanned : Bool := false

structure Definition where
  steps : List Step
  timeoutHours : Option Rat := none
  replanOnFailure : Bool := false

def Step.deps (step : Step) : List Scalar := step.dependsOn.getD []

def Step.stepType (step : Step) : StepType := step.type.getD .agent

def Step.text? (step : Step) (key : String) : Option String :=
  (step.texts.find? (·.1 == key)).map Prod.snd

namespace Directive

-- `\s` of Python's `re` and the characters `str.strip` removes.
def isSpace (c : Char) : Bool :=
  let n := c.toNat
  (9 ≤ n && n ≤ 13) || (28 ≤ n && n ≤ 32) || n == 133 || n == 160 || n == 5760 ||
    (8192 ≤ n && n ≤ 8202) || n == 8232 || n == 8233 || n == 8239 || n == 8287 || n == 12288

def strip (text : List Char) : List Char :=
  ((text.dropWhile isSpace).reverse.dropWhile isSpace).reverse

def lower (text : List Char) : List Char := text.map Char.toLower

-- The rest of the text behind a word it starts with.
def afterWord : List Char → List Char → Option (List Char)
  | [], text => some text
  | _ :: _, [] => none
  | w :: word, c :: text => if w = c then afterWord word text else none

-- `re.search`: the match at the first position that has one.
def search {α : Type} (matchAt : List Char → Option α) : List Char → Option α
  | [] => matchAt []
  | c :: text =>
      match matchAt (c :: text) with
      | some found => some found
      | none => search matchAt text

def isNameChar (c : Char) : Bool := c.isAlphanum || c == '_' || c == '.' || c == '-'

-- `fallback\(\s*([A-Za-z0-9_.-]+)\s*\)` at the start of the text. The three
-- character classes do not meet, so the greedy reading is the only one.
def fallbackAt (text : List Char) : Option String :=
  match afterWord "fallback(".toList text with
  | none => none
  | some inner =>
      let name := (inner.dropWhile isSpace).takeWhile isNameChar
      let after := ((inner.dropWhile isSpace).dropWhile isNameChar).dropWhile isSpace
      if name ≠ [] ∧ after.head? = some ')' then some (String.ofList name) else none

-- `retry\((\d+)\)` at the start of the text, with the text behind it.
def retryAt (text : List Char) : Option (Nat × List Char) :=
  match afterWord "retry(".toList text with
  | none => none
  | some inner =>
      let digits := inner.takeWhile Char.isDigit
      match digits, inner.dropWhile Char.isDigit with
      | _ :: _, ')' :: rest =>
          some (digits.foldl (fun n c => 10 * n + (c.toNat - '0'.toNat)) 0, rest)
      | _, _ => none

-- `_RETRY_DIRECTIVE_RE.sub("", text)`
def dropRetries : Nat → List Char → List Char
  | 0, text => text
  | _ + 1, [] => []
  | fuel + 1, c :: text =>
      match retryAt (c :: text) with
      | some (_, rest) => dropRetries fuel rest
      | none => c :: dropRetries fuel text

def tokens (text : List Char) : List String :=
  ((text.splitOnP fun c => !(('a' ≤ c && c ≤ 'z') || c == '_')).filter (· ≠ [])).map String.ofList

end Directive

open Directive

def fallbackTarget (step : Step) : Option String := search fallbackAt step.onFailure.toList

def parseRetryCount (onFailure : String) : Nat :=
  match retryAt (strip onFailure.toList) with
  | some (count, _) => count
  | none => 0

def stepAllowsFailure (step : Step) : Bool :=
  let onFailure := lower (strip step.onFailure.toList)
  let fallback := dropRetries onFailure.length onFailure
  step.optional || step.allowFailure ||
    (tokens fallback).any (["continue", "ignore", "optional"].contains ·) ||
    (fallbackTarget step).isSome

-- The steps that name `stepId` as their fallback, in definition order.
def fallbackSources (stepId : Scalar) (steps : List Step) : List Scalar :=
  (steps.filter fun s =>
    !(s.id == stepId) && (fallbackTarget s).any fun target => Scalar.str target == stepId).map Step.id

def buildStepIndex (steps : List Step) : OrderedDict.Dict Scalar Step :=
  OrderedDict.Dict.ofList (steps.map fun step => (step.id, step))

end AgenticOrg.Workflows
