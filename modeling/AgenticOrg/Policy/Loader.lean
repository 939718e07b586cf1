import AgenticOrg.Lib.Regex
import AgenticOrg.Policy.Types
import Mathlib.Data.List.Sort

namespace AgenticOrg.Policies

open Derivatives

section Constants

def MAX_RULES : Nat := 500
def MAX_CONDITION_DEPTH : Nat := 12
def MAX_COMBINATOR_ITEMS : Nat := 50
def MAX_LIST_OPERAND_ITEMS : Nat := 200
def MAX_PATH_DEPTH : Nat := 8
def MAX_PATH_CHARS : Nat := 200
def MAX_STRING_OPERAND_CHARS : Nat := 200
def MAX_REASON_CHARS : Nat := 500
def MAX_TEXT_CHARS : Nat := 2000

def POLICY_KEYS : List String :=
  ["policy", "version", "status", "reviewed_by", "description", "score_thresholds", "rules"]

def RULE_KEYS : List String := ["id", "description", "when", "effect"]

def EFFECT_KEYS : List String := ["tier", "reason", "score"]

def NUMERIC_OPERATORS : List Operator := [.gt, .gte, .lt, .lte]

def LIST_OPERATORS : List Operator := [.isIn, .notIn]

def PRESENCE_OPERATORS : List Operator := [.exist, .missing]

def isLower (c : Char) : Bool := 'a' ≤ c && c ≤ 'z'

def isNameChar (c : Char) : Bool := isLower c || ('0' ≤ c && c ≤ '9') || c == '_'

-- `^[a-z][a-z0-9_]{0,63}$`
def ID_RE : Regex := .seq (.chars isLower) (.upTo (.chars isNameChar) 63)

-- `[a-z][a-z0-9_]*`
def SEGMENT : Regex := .seq (.chars isLower) (.star (.chars isNameChar))

def PATH_RE : Regex := .seq SEGMENT (.star (.seq (.char '.') SEGMENT))

-- `[0-9a-zA-Z-]`
def isTagChar (c : Char) : Bool :=
  ('0' ≤ c && c ≤ '9') || ('a' ≤ c && c ≤ 'z') || ('A' ≤ c && c ≤ 'Z') || c == '-'

-- `[a-zA-Z-]`
def isTagLetter (c : Char) : Bool := ('a' ≤ c && c ≤ 'z') || ('A' ≤ c && c ≤ 'Z') || c == '-'

-- `0|[1-9]\d*`
def numeral (py : Python) : Regex :=
  .alt (.char '0') (.seq (.chars fun c => '1' ≤ c && c ≤ '9') (.star (.chars py.isDecimal)))

-- `0|[1-9]\d*|\d*[a-zA-Z-][0-9a-zA-Z-]*`
def prereleaseTag (py : Python) : Regex :=
  .alt (numeral py)
    (.seq (.star (.chars py.isDecimal)) (.seq (.chars isTagLetter) (.star (.chars isTagChar))))

def dotted (tag : Regex) : Regex := .seq tag (.star (.seq (.char '.') tag))

def SEMVER_RE (py : Python) : Regex :=
  .seq (numeral py) (.seq (.char '.') (.seq (numeral py) (.seq (.char '.') (.seq (numeral py)
    (.seq (.optional (.seq (.char '-') (dotted (prereleaseTag py))))
      (.optional (.seq (.char '+') (dotted (.plus (.chars isTagChar))))))))))

-- `[\x00-\x08\x0b-\x1f\x7f]`
def isControl (c : Char) : Bool := c.toNat ≤ 8 || (11 ≤ c.toNat && c.toNat ≤ 31) || c.toNat == 127

end Constants

section Errors

-- The reasons for which a parsed document is refused.
inductive PolicyLoadReason where
  | missingField
  | unknownKey
  | invalidValue
  | invalidVersion
  | invalidCondition
  | unknownOperator
  | invalidPath
  | invalidOperand
  | duplicateRuleId
  | limitExceeded
  | productionUnreviewed
  deriving DecidableEq

structure PolicyLoadError where
  reason : PolicyLoadReason
  detail : String
  source : String
  location : String

abbrev Load (α : Type) := Except PolicyLoadError α

end Errors

variable (py : Python) (source : String)

def fail {α : Type} (reason : PolicyLoadReason) (detail : String) (location : String) : Load α :=
  .error ⟨reason, detail, source, location⟩

def Yaml.ofTexts (texts : List String) : Yaml := .list (texts.map fun text => .scalar (.str text))

def sortTexts (texts : List String) : List String := texts.insertionSort (· ≤ ·)

def Yaml.typeName : Yaml → String
  | .null => "NoneType"
  | .scalar (.bool _) => "bool"
  | .scalar (.int _) => "int"
  | .scalar (.float _) => "float"
  | .scalar (.str _) => "str"
  | .list _ => "list"
  | .mapping _ => "dict"

-- `mapping.get(key)`, with a null value as no value.
def field (entries : List (String × Yaml)) (key : String) : Option Yaml :=
  match (entries.find? (·.1 == key)).map Prod.snd with
  | some .null => none
  | found => found

section Helpers

def text (value : Yaml) (location : String) (maxChars : Nat) : Load String :=
  match value with
  | .scalar (.str value) =>
      if value.toList.all py.isSpace then fail source .invalidValue "must be a non-empty string" location
      else if value.length > maxChars then
        fail source .limitExceeded ("longer than " ++ toString maxChars ++ " characters") location
      else if value.toList.any isControl then
        fail source .invalidValue "contains control characters" location
      else .ok value
  | _ => fail source .invalidValue "must be a non-empty string" location

def identifier (value : Yaml) (location : String) : Load String :=
  let refused :=
    fail source .invalidValue
      "must be lower-case snake_case: a letter, then up to 63 letters, digits or underscores" location
  match value with
  | .scalar (.str value) => if ID_RE.matchesLine value then .ok value else refused
  | _ => refused

def checkKeys (entries : List (String × Yaml)) (allowed : List String) (location : String) : Load Unit :=
  let unknown := sortTexts ((entries.map Prod.fst).filter fun key => !allowed.contains key)
  if unknown.isEmpty then .ok ()
  else
    fail source .unknownKey
      ("unknown key(s) " ++ py.repr (.ofTexts unknown) ++ "; allowed: " ++
        py.repr (.ofTexts (sortTexts allowed))) location

-- `_require`
def required (entries : List (String × Yaml)) (key : String) (location : String) : Load Yaml :=
  match field entries key with
  | none => fail source .missingField (py.repr (.scalar (.str key)) ++ " is required") location
  | some value => .ok value

def PLACEHOLDER_REVIEWERS : List String :=
  ["anonymous", "changeme", "example", "fixme", "na", "nobody", "none", "notreviewed", "null", "pending",
    "placeholder", "reviewer", "someone", "tba", "tbc", "tbd", "test", "todo", "unknown", "unreviewed",
    "xxx", "yourname"]

def isPlaceholderReviewer (value : String) : Bool :=
  let folded := (py.casefold value).toList.filter py.isAlnum
  folded.countP py.isAlpha < 2 || PLACEHOLDER_REVIEWERS.contains (String.ofList folded) ||
    folded.dedup.length = 1

def scalarOperand (value : Yaml) (location : String) : Load Scalar :=
  let refused :=
    fail source .invalidOperand
      ("operand must be a string, a finite number within +/-2**53 or a boolean, got " ++ value.typeName)
      location
  match value with
  | .scalar found =>
      match found.kind with
      | none => refused
      | some _ =>
          match found with
          | .str text =>
              if text.length > MAX_STRING_OPERAND_CHARS then
                fail source .limitExceeded
                  ("string operand longer than " ++ toString MAX_STRING_OPERAND_CHARS) location
              else .ok found
          | _ => .ok found
  | _ => refused

end Helpers

section Conditions

def operatorOf (name : String) : Option Operator := OPERATORS.find? (·.value == name)

def compileOperand (op : Operator) (operand : Yaml) (location : String) : Load Operand :=
  if PRESENCE_OPERATORS.contains op then
    match operand with
    | .scalar (.bool true) => .ok (.scalar (.bool true))
    | _ => fail source .invalidOperand (op.value ++ " takes the operand true") location
  else if NUMERIC_OPERATORS.contains op then
    match operand with
    | .scalar value =>
        if value.kind = some .number then .ok (.scalar value)
        else fail source .invalidOperand (op.value ++ " takes a finite number within +/-2**53") location
    | _ => fail source .invalidOperand (op.value ++ " takes a finite number within +/-2**53") location
  else if LIST_OPERATORS.contains op then
    match operand with
    | .list (first :: rest) =>
        if (first :: rest).length > MAX_LIST_OPERAND_ITEMS then
          fail source .limitExceeded ("more than " ++ toString MAX_LIST_OPERAND_ITEMS ++ " items") location
        else do
          let items ← (first :: rest).zipIdx.mapM fun (item, index) =>
            scalarOperand source item (location ++ "[" ++ toString index ++ "]")
          if (items.map Scalar.kind).dedup.length ≠ 1 then
            fail source .invalidOperand (op.value ++ " items must all be the same type") location
          else pure (.tuple items)
    | _ => fail source .invalidOperand (op.value ++ " takes a non-empty list") location
  else do
    let value ← scalarOperand source operand location
    pure (.scalar value)

-- `path.split(".")`
def segmentsOf (path : String) : List String := (path.toList.splitOn '.').map String.ofList

def compileCompare (path : String) (spec : Yaml) (location : String) : Load Compare :=
  let shown := py.repr (.scalar (.str path))
  if path.length > MAX_PATH_CHARS || !PATH_RE.matchesLine path then
    fail source .invalidPath (shown ++ " is not a dotted path of lower-case snake_case segments") location
  else if (segmentsOf path).length > MAX_PATH_DEPTH then
    fail source .invalidPath (shown ++ " is deeper than " ++ toString MAX_PATH_DEPTH ++ " segments") location
  else
    match spec with
    | .mapping [(name, operand)] =>
        let opLocation := location ++ "." ++ path ++ "." ++ name
        match operatorOf name with
        | none =>
            fail source .unknownOperator
              ("unknown operator " ++ py.repr (.scalar (.str name)) ++ "; allowed: " ++
                py.repr (.ofTexts (sortTexts (OPERATORS.map Operator.value)))) opLocation
        | some op => do
            let compiled ← compileOperand source op operand opLocation
            pure ⟨path, segmentsOf path, op, compiled⟩
    | _ =>
        fail source .invalidCondition
          (shown ++ " must map to exactly one operator, e.g. \x7b" ++ path ++ ": \x7beq: value\x7d\x7d")
          location

-- The first argument counts down what the depth has left up to `MAX_CONDITION_DEPTH`.
def compileCondition : Nat → Yaml → String → Load Condition
  | 0, _, location =>
      fail source .limitExceeded
        ("conditions nested deeper than " ++ toString MAX_CONDITION_DEPTH) location
  | left + 1, .mapping [(key, value)], location =>
      if key = "all" ∨ key = "any" then
        match value with
        | .list (first :: rest) =>
            if (first :: rest).length > MAX_COMBINATOR_ITEMS then
              fail source .limitExceeded
                (py.repr (.scalar (.str key)) ++ " has more than " ++ toString MAX_COMBINATOR_ITEMS ++
                  " items") location
            else do
              let items ← (first :: rest).zipIdx.mapM fun (item, index) =>
                compileCondition left item (location ++ "." ++ key ++ "[" ++ toString index ++ "]")
              pure (if key = "all" then .allOf items else .anyOf items)
        | _ =>
            fail source .invalidCondition
              (py.repr (.scalar (.str key)) ++ " takes a non-empty list of conditions") location
      else if key = "not" then do
        let item ← compileCondition left value (location ++ ".not")
        pure (.not item)
      else do
        let leaf ← compileCompare py source key value location
        pure (.compare leaf)
  | _ + 1, _, location =>
      fail source .invalidCondition
        "a condition is a mapping with exactly one key: a dotted path, 'all', 'any' or 'not'" location

mutual

-- A set as the list of its elements in the order in which they came in.
def collectPaths : Condition → List String → List String
  | .compare leaf, into => into.insert leaf.path
  | .allOf items, into => collectAll items into
  | .anyOf items, into => collectAll items into
  | .not item, into => collectPaths item into
  | .foreign items, into => collectAll items into

def collectAll : List Condition → List String → List String
  | [], into => into
  | item :: rest, into => collectAll rest (collectPaths item into)

end

end Conditions

section Policies

def tierOf (value : Yaml) : Option Tier :=
  match value with
  | .scalar (.str name) => TIERS.find? (·.value == name)
  | _ => none

def statusOf (value : Yaml) : Option PolicyStatus :=
  match value with
  | .scalar (.str name) => [PolicyStatus.example_, .production].find? (·.value == name)
  | _ => none

-- A whole number in the given range; a bool is none.
def wholeNumber (value : Yaml) (low high : Int) : Option Int :=
  match value with
  | .scalar (.int number) => if low ≤ number ∧ number ≤ high then some number else none
  | _ => none

def optionalText (entries : List (String × Yaml)) (key : String) (location : String) (maxChars : Nat) :
    Load (Option String) :=
  match field entries key with
  | none => .ok none
  | some value => do
      let found ← text py source value location maxChars
      pure (some found)

def compileScore (entries : List (String × Yaml)) (tier : Tier) (location : String) : Load Int :=
  match field entries "score" with
  | none => .ok (DEFAULT_TIER_SCORE tier)
  | some value =>
      match wholeNumber value 0 MAX_SCORE with
      | some score => .ok score
      | none =>
          fail source .invalidValue
            ("score must be a whole number from 0 to " ++ toString MAX_SCORE) (location ++ ".score")

def compileEffect (raw : Yaml) (location : String) : Load Effect :=
  match raw with
  | .mapping entries => do
      checkKeys py source entries EFFECT_KEYS location
      let tierRaw ← required py source entries "tier" location
      match tierOf tierRaw with
      | none =>
          fail source .invalidValue
            ("unknown tier " ++ py.repr tierRaw ++ "; allowed: " ++ py.repr (.ofTexts (TIERS.map Tier.value)))
            (location ++ ".tier")
      | some tier => do
          let reasonRaw ← required py source entries "reason" location
          let reason ← text py source reasonRaw (location ++ ".reason") MAX_REASON_CHARS
          let score ← compileScore source entries tier location
          pure ⟨tier, reason, score⟩
  | _ => fail source .invalidValue "effect must be a mapping" location

def compileRule (raw : Yaml) (location : String) : Load Rule :=
  match raw with
  | .mapping entries => do
      checkKeys py source entries RULE_KEYS location
      let idRaw ← required py source entries "id" location
      let ruleId ← identifier source idRaw (location ++ ".id")
      let description ← optionalText py source entries "description" (location ++ ".description")
        MAX_TEXT_CHARS
      let whenRaw ← required py source entries "when" location
      let condition ← compileCondition py source MAX_CONDITION_DEPTH whenRaw (location ++ ".when")
      let effectRaw ← required py source entries "effect" location
      let effect ← compileEffect py source effectRaw (location ++ ".effect")
      pure ⟨ruleId, condition, effect, description⟩
  | _ => fail source .invalidValue "a rule must be a mapping" location

def compileThreshold (name : String) (value : Yaml) : Load (Tier × Int) :=
  match tierOf (.scalar (.str name)) with
  | none => fail source .unknownKey ("unknown tier " ++ py.repr (.scalar (.str name))) "score_thresholds"
  | some .low =>
      fail source .invalidValue "low is the floor and takes no threshold" ("score_thresholds." ++ name)
  | some tier =>
      match wholeNumber value 1 MAX_SCORE with
      | some minimum => .ok (tier, minimum)
      | none =>
          fail source .invalidValue ("threshold must be a whole number from 1 to " ++ toString MAX_SCORE)
            ("score_thresholds." ++ name)

def checkRising : List (Tier × Int) → Load Unit
  | (lowerTier, lower) :: (higherTier, higher) :: rest =>
      if higher ≤ lower then
        fail source .invalidValue
          (higherTier.value ++ " threshold (" ++ toString higher ++ ") must be greater than " ++
            lowerTier.value ++ " (" ++ toString lower ++ ")") "score_thresholds"
      else checkRising ((higherTier, higher) :: rest)
  | _ => .ok ()

def compileThresholds (raw : Option Yaml) : Load (List (Tier × Int)) :=
  match raw with
  | none => .ok []
  | some (.mapping (first :: rest)) => do
      let pairs ← (first :: rest).mapM fun (name, value) => compileThreshold py source name value
      let sorted := pairs.insertionSort fun a b => a.1.rank ≤ b.1.rank
      checkRising source sorted
      pure sorted
  | some _ =>
      fail source .invalidValue "score_thresholds must be a non-empty mapping of tier to score"
        "score_thresholds"

-- The rules from `index` on; `seen` are the ids before them, the newest first.
def compileRules : Nat → List String → List Yaml → Load (List Rule)
  | _, _, [] => .ok []
  | index, seen, raw :: rest => do
      let location := "rules[" ++ toString index ++ "]"
      let rule ← compileRule py source raw location
      if seen.contains rule.ruleId then
        fail source .duplicateRuleId
          ("rule id " ++ py.repr (.scalar (.str rule.ruleId)) ++ " is already used by rules[" ++
            toString (seen.reverse.idxOf rule.ruleId) ++ "]") (location ++ ".id")
      else do
        let rules ← compileRules (index + 1) (rule.ruleId :: seen) rest
        pure (rule :: rules)

def compileVersion (entries : List (String × Yaml)) : Load String := do
  let raw ← required py source entries "version" ""
  let refused :=
    fail source .invalidVersion
      ("version must be a semantic version string such as \"1.2.0\", got " ++ py.repr raw) "version"
  match raw with
  | .scalar (.str version) => if (SEMVER_RE py).matchesLine version then .ok version else refused
  | _ => refused

def compileStatus (entries : List (String × Yaml)) : Load PolicyStatus :=
  match field entries "status" with
  | none => .ok .example_
  | some raw =>
      match statusOf raw with
      | some status => .ok status
      | none =>
          fail source .invalidValue
            ("status must be one of " ++ py.repr (.ofTexts ["example", "production"]) ++ ", got " ++
              py.repr raw) "status"

def compileReviewer (entries : List (String × Yaml)) (status : PolicyStatus) : Load (Option String) := do
  let reviewedBy ← optionalText py source entries "reviewed_by" "reviewed_by" MAX_STRING_OPERAND_CHARS
  match reviewedBy with
  | some reviewer =>
      if isPlaceholderReviewer py reviewer then
        fail source (if status = .production then .productionUnreviewed else .invalidValue)
          ("reviewed_by " ++ py.repr (.scalar (.str reviewer)) ++ " is a placeholder, not a named reviewer")
          "reviewed_by"
      else .ok reviewedBy
  | none =>
      if status = .production then
        fail source .productionUnreviewed
          "a production policy must name its compliance reviewer in reviewed_by" "reviewed_by"
      else .ok none

def compilePolicy (document : Yaml) (contentHash : String) : Load Policy :=
  match document with
  | .mapping entries => do
      checkKeys py source entries POLICY_KEYS ""
      let idRaw ← required py source entries "policy" ""
      let policyId ← identifier source idRaw "policy"
      let version ← compileVersion py source entries
      let status ← compileStatus py source entries
      let reviewedBy ← compileReviewer py source entries status
      let description ← optionalText py source entries "description" "description" MAX_TEXT_CHARS
      let thresholds ← compileThresholds py source (field entries "score_thresholds")
      let rulesRaw ← required py source entries "rules" ""
      match rulesRaw with
      | .list (first :: rest) =>
          if (first :: rest).length > MAX_RULES then
            fail source .limitExceeded ("more than " ++ toString MAX_RULES ++ " rules") "rules"
          else do
            let rules ← compileRules py source 0 [] (first :: rest)
            let paths := rules.foldl (fun into rule => collectPaths rule.when into) []
            pure
              { policyId := policyId
                version := version
                status := status
                reviewedBy := reviewedBy
                description := description
                rules := rules
                scoreThresholds := thresholds
                contentHash := contentHash
                source := source
                referencedPaths := sortTexts paths }
      | _ => fail source .invalidValue "rules must be a non-empty list" "rules"
  | _ => fail source .invalidValue "a policy file must contain one YAML mapping" ""

end Policies

end AgenticOrg.Policies
