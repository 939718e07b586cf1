import AgenticOrg.Policy.Types
import Mathlib.Data.List.Sort

namespace AgenticOrg.Policies

open OrderedDict Kleene

def ENGINE_VERSION : String := "1"

-- Every way in which an evaluation can go wrong. Python raises for all of them but
-- `mixedKinds`: it would compare the two values, which the engine is never to do.
inductive Fault where
  | notMapping
  | keyError (path : String)
  | emptyOperand
  | mixedKinds
  | notOrdered
  | unhandledOperator
  | notCondition
  | notJson
  deriving DecidableEq

section Reading

-- What a path leads to: `_MISSING`, `_UNREADABLE` or a value.
inductive Reading where
  | missing
  | unreadable
  | found (value : Evidence)

def Reading.isMissing : Reading → Bool
  | .missing => true
  | _ => false

def read : Evidence → List String → Reading
  | .null, [] => .missing
  | node, [] => .found node
  | .mapping entries, segment :: rest =>
      match (entries.find? (·.1 == segment)).map Prod.snd with
      | none => .missing
      | some none => .unreadable
      | some (some node) => read node rest
  | _, _ :: _ => .missing

-- The value with its kind, when it is one that can be compared.
def Reading.usable : Reading → Option (Scalar × Kind)
  | .found (.scalar value) => value.kind.map fun kind => (value, kind)
  | _ => none

inductive JsonValue where
  | null
  | scalar (value : Scalar)
  | nonScalar (what : String)

def snapshot : Reading → JsonValue
  | .missing => .null
  | .unreadable => .nonScalar "unreadable"
  | .found (.scalar value) =>
      match value.kind, value with
      | some _, value => .scalar value
      | none, .float _ => .nonScalar "non_finite_number"
      | none, .int _ => .nonScalar "integer_out_of_range"
      | none, _ => .nonScalar "other"
  | .found (.mapping _) => .nonScalar "mapping"
  | .found (.list _) => .nonScalar "list"
  | .found _ => .nonScalar "other"

abbrev Values := Dict String Reading

mutual

def indexPaths (evidence : Evidence) : Condition → Values → Values
  | .compare leaf, into =>
      if into.contains leaf.path then into else into.insert leaf.path (read evidence leaf.segments)
  | .not item, into => indexPaths evidence item into
  | .allOf items, into => indexAll evidence items into
  | .anyOf items, into => indexAll evidence items into
  | .foreign items, into => indexAll evidence items into

def indexAll (evidence : Evidence) : List Condition → Values → Values
  | [], into => into
  | item :: rest, into => indexAll evidence rest (indexPaths evidence item into)

end

def valueAt (values : Values) (path : String) : Except Fault Reading :=
  match values.get? path with
  | none => .error (.keyError path)
  | some reading => .ok reading

end Reading

section Comparing

-- A number's value; a text, or what is not finite, has none.
def Scalar.number? : Scalar → Option Rat
  | .int value => some value
  | .float (.finite value) => some value
  | .float .negativeZero => some 0
  | _ => none

def equal (value bound : Scalar) : Except Fault Bool :=
  if value.kind ≠ bound.kind then .error .mixedKinds
  else
    match value.number?, bound.number? with
    | some a, some b => .ok (a == b)
    | _, _ => .ok (value == bound)

def ordered (test : Rat → Rat → Bool) (value bound : Scalar) : Except Fault Bool :=
  if value.kind ≠ bound.kind then .error .mixedKinds
  else
    match value.number?, bound.number? with
    | some a, some b => .ok (test a b)
    | _, _ => .error .notOrdered

-- `any(value == item for item in items)`
def anyEqual (value : Scalar) : List Scalar → Except Fault Bool
  | [] => .ok false
  | item :: rest => do
      let same ← equal value item
      if same then pure true else anyEqual value rest

def compareMember (op : Operator) (operand : Operand) (value : Scalar) (kind : Kind) :
    Except Fault Truth :=
  match operand.items with
  | [] => .error .emptyOperand
  | first :: rest =>
      if some kind ≠ first.kind then .ok none
      else do
        let found ← anyEqual value (first :: rest)
        pure (some (if op = .isIn then found else !found))

def compareScalar (op : Operator) (value bound : Scalar) : Except Fault Bool :=
  if op = .eq then equal value bound
  else if op = .ne then (equal value bound).map not
  else if op = .gt then ordered (fun a b => a > b) value bound
  else if op = .gte then ordered (fun a b => a ≥ b) value bound
  else if op = .lt then ordered (fun a b => a < b) value bound
  else if op = .lte then ordered (fun a b => a ≤ b) value bound
  else .error .unhandledOperator

-- `_compare` of a value that was read; `none` is where it notes the path as unresolved.
def compareReading (op : Operator) (operand : Operand) (reading : Reading) : Except Fault Truth :=
  match reading with
  | .unreadable => .ok none
  | reading =>
      if op = .exist then .ok (some (!reading.isMissing))
      else if op = .missing then .ok (some reading.isMissing)
      else
        match reading.usable with
        | none => .ok none
        | some (value, kind) =>
            if op = .isIn ∨ op = .notIn then compareMember op operand value kind
            else
              match operand with
              | .tuple _ => .ok none
              | .scalar bound =>
                  if some kind ≠ bound.kind then .ok none
                  else (compareScalar op value bound).map some

-- The truth, and the unresolved paths in the order in which they came in.
def compare (values : Values) (leaf : Compare) (unresolved : List String) :
    Except Fault (Truth × List String) := do
  let reading ← valueAt values leaf.path
  let truth ← compareReading leaf.op leaf.operand reading
  pure (truth, if truth = none then unresolved.insert leaf.path else unresolved)

mutual

def truth (values : Values) : Condition → List String → Except Fault (Truth × List String)
  | .compare leaf, unresolved => compare values leaf unresolved
  | .not item, unresolved => do
      let (inner, unresolved) ← truth values item unresolved
      pure (negate inner, unresolved)
  | .allOf items, unresolved => do
      let (results, unresolved) ← truths values items unresolved
      pure (all results, unresolved)
  | .anyOf items, unresolved => do
      let (results, unresolved) ← truths values items unresolved
      pure (any results, unresolved)
  | .foreign items, unresolved => do
      let _ ← truths values items unresolved
      .error .notCondition

def truths (values : Values) : List Condition → List String → Except Fault (List Truth × List String)
  | [], unresolved => .ok ([], unresolved)
  | item :: rest, unresolved => do
      let (result, unresolved) ← truth values item unresolved
      let (results, unresolved) ← truths values rest unresolved
      pure (result :: results, unresolved)

end

end Comparing

section Hashing

variable (py : Python)

-- Python refuses to print an integer of more digits than these.
def MAX_INT_DIGITS : Nat := 4300

def Scalar.json : Scalar → Except Fault String
  | .bool value => .ok (if value then "true" else "false")
  | .int value => if 10 ^ MAX_INT_DIGITS ≤ value.natAbs then .error .notJson else .ok (toString value)
  | .float (.finite value) => .ok (py.floatRepr value)
  | .float .negativeZero => .ok "-0.0"
  | .float _ => .error .notJson
  | .str text => .ok (py.quote text)

def JsonValue.json : JsonValue → Except Fault String
  | .null => .ok "null"
  | .scalar value => value.json py
  | .nonScalar what => .ok ("\x7b" ++ py.quote "non_scalar" ++ ":" ++ py.quote what ++ "\x7d")

def canonicalHash (inputs : List (String × JsonValue)) : Except Fault String := do
  let sorted := inputs.insertionSort fun a b => a.1 ≤ b.1
  let members ← sorted.mapM fun input => do
    let shown ← input.2.json py
    pure (py.quote input.1 ++ ":" ++ shown)
  pure ("sha256:" ++ py.sha256 ("\x7b" ++ ",".intercalate members ++ "\x7d"))

end Hashing

section Evaluating

structure PolicyReason where
  ruleId : String
  tier : Tier
  score : Int
  reason : String
  indeterminate : Bool
  unresolvedPaths : List String

structure PolicyResult where
  policyId : String
  policyVersion : String
  policyStatus : PolicyStatus
  policyHash : String
  reviewedBy : Option String
  engineVersion : String
  tier : Tier
  tierSource : String
  score : Int
  reasons : List PolicyReason
  firedRules : List String
  inputs : List (String × JsonValue)
  missingInputs : List String
  invalidInputs : List String
  inputsHash : String

def indexRules (policy : Policy) (evidence : Evidence) : Values :=
  policy.rules.foldl (fun into rule => indexPaths evidence rule.when into) .empty

-- The reason a rule gives, unless its condition is false.
def reasonOf (rule : Rule) (found : Truth × List String) : Option PolicyReason :=
  if found.1 = some false then none
  else
    some
      { ruleId := rule.ruleId
        tier := rule.effect.tier
        score := rule.effect.score
        reason := rule.effect.reason
        indeterminate := found.1 = none
        unresolvedPaths := found.2.insertionSort (· ≤ ·) }

def fireRules (values : Values) : Nat → List Rule → Except Fault (List (Nat × PolicyReason))
  | _, [] => .ok []
  | index, rule :: rest => do
      let found ← truth values rule.when []
      let fired ← fireRules values (index + 1) rest
      pure
        (match reasonOf rule found with
        | none => fired
        | some reason => (index, reason) :: fired)

-- The key `(-tier.rank, index)` of the sort.
def Before (a b : Nat × PolicyReason) : Prop :=
  b.2.tier.rank < a.2.tier.rank ∨ (a.2.tier.rank = b.2.tier.rank ∧ a.1 ≤ b.1)

instance : DecidableRel Before := fun a b =>
  inferInstanceAs (Decidable (b.2.tier.rank < a.2.tier.rank ∨ (a.2.tier.rank = b.2.tier.rank ∧ a.1 ≤ b.1)))

def scoreOf (reasons : List PolicyReason) : Int := min MAX_SCORE ((reasons.map (·.score)).foldl (· + ·) 0)

def raiseTier (tier other : Tier) : Tier := if other.rank > tier.rank then other else tier

def tierOfReasons (reasons : List PolicyReason) : Tier :=
  reasons.foldl (fun tier reason => raiseTier tier reason.tier) .low

def escalate (score : Int) (thresholds : List (Tier × Int)) (start : Tier × String) : Tier × String :=
  thresholds.foldl
    (fun current threshold =>
      if score ≥ threshold.2 ∧ threshold.1.rank > current.1.rank then (threshold.1, "score_threshold")
      else current)
    start

def evaluate (py : Python) (policy : Policy) (evidence : Evidence) : Except Fault PolicyResult :=
  match evidence with
  | .mapping _ => do
      let values := indexRules policy evidence
      let readings ← policy.referencedPaths.mapM fun path => do
        let reading ← valueAt values path
        pure (path, reading)
      let inputs := readings.map fun entry => (entry.1, snapshot entry.2)
      let missing := (readings.filter fun entry => entry.2.isMissing).map Prod.fst
      let invalid :=
        (readings.filter fun entry => !entry.2.isMissing && entry.2.usable.isNone).map Prod.fst
      let fired ← fireRules values 0 policy.rules
      let reasons := (fired.insertionSort Before).map Prod.snd
      let score := scoreOf reasons
      let (tier, tierSource) := escalate score policy.scoreThresholds (tierOfReasons reasons, "rules")
      let inputsHash ← canonicalHash py inputs
      pure
        { policyId := policy.policyId
          policyVersion := policy.version
          policyStatus := policy.status
          policyHash := policy.contentHash
          reviewedBy := policy.reviewedBy
          engineVersion := ENGINE_VERSION
          tier := tier
          tierSource := tierSource
          score := score
          reasons := reasons
          firedRules := reasons.map (·.ruleId)
          inputs := inputs
          missingInputs := missing
          invalidInputs := invalid
          inputsHash := inputsHash }
  | _ => .error .notMapping

end Evaluating

end AgenticOrg.Policies
