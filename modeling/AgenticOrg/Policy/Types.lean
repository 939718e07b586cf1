import AgenticOrg.Lib.Dict
import AgenticOrg.Lib.Kleene
import Mathlib.Algebra.Order.Ring.Int

namespace AgenticOrg.Policies

section Values

-- A Python `float`: its exact value, the zero with a sign, or one of those that are not finite.
inductive PyFloat where
  | finite (value : Rat)
  | negativeZero
  | infinity (negative : Bool)
  | nan
  deriving DecidableEq

inductive Scalar where
  | bool (value : Bool)
  | int (value : Int)
  | float (value : PyFloat)
  | str (text : String)
  deriving DecidableEq

inductive Kind where
  | bool
  | number
  | string
  deriving DecidableEq

def MAX_SAFE_INTEGER : Int := 2 ^ 53

-- `_kind` of a scalar, which the loader and the engine have a copy of each.
def Scalar.kind : Scalar → Option Kind
  | .bool _ => some .bool
  | .int value => if -MAX_SAFE_INTEGER ≤ value ∧ value ≤ MAX_SAFE_INTEGER then some .number else none
  | .float (.finite _) => some .number
  | .float .negativeZero => some .number
  | .float _ => none
  | .str _ => some .string

-- A parsed YAML document. The keys of a mapping are texts, each there once.
inductive Yaml where
  | null
  | scalar (value : Scalar)
  | list (items : List Yaml)
  | mapping (entries : List (String × Yaml))

def Yaml.kind : Yaml → Option Kind
  | .scalar value => value.kind
  | _ => none

-- Any Python value as evidence; a tuple counts as a list. Reading an entry without a value
-- raises, and `other` is an object that is none of these.
inductive Evidence where
  | null
  | scalar (value : Scalar)
  | list (items : List Evidence)
  | mapping (entries : List (String × Option Evidence))
  | other

def Evidence.kind : Evidence → Option Kind
  | .scalar value => value.kind
  | _ => none

end Values

section Conditions

inductive Tier where
  | low
  | medium
  | high
  | blocked
  deriving DecidableEq

def Tier.value : Tier → String
  | .low => "low"
  | .medium => "medium"
  | .high => "high"
  | .blocked => "blocked"

def Tier.rank : Tier → Nat
  | .low => 0
  | .medium => 1
  | .high => 2
  | .blocked => 3

def TIERS : List Tier := [.low, .medium, .high, .blocked]

def DEFAULT_TIER_SCORE : Tier → Int
  | .low => 0
  | .medium => 20
  | .high => 50
  | .blocked => 100

def MAX_SCORE : Int := 100

inductive PolicyStatus where
  | example_
  | production
  deriving DecidableEq

def PolicyStatus.value : PolicyStatus → String
  | .example_ => "example"
  | .production => "production"

inductive Operator where
  | eq
  | ne
  | isIn
  | notIn
  | gt
  | gte
  | lt
  | lte
  | exist
  | missing
  deriving DecidableEq

def Operator.value : Operator → String
  | .eq => "eq"
  | .ne => "ne"
  | .isIn => "in"
  | .notIn => "not_in"
  | .gt => "gt"
  | .gte => "gte"
  | .lt => "lt"
  | .lte => "lte"
  | .exist => "exists"
  | .missing => "missing"

def OPERATORS : List Operator := [.eq, .ne, .isIn, .notIn, .gt, .gte, .lt, .lte, .exist, .missing]

inductive Operand where
  | scalar (value : Scalar)
  | tuple (items : List Scalar)

def Operand.items : Operand → List Scalar
  | .tuple items => items
  | .scalar value => [value]

structure Compare where
  path : String
  segments : List String
  op : Operator
  operand : Operand

-- `foreign` is an object with `items` that is none of the four compiled conditions.
inductive Condition where
  | compare (leaf : Compare)
  | allOf (items : List Condition)
  | anyOf (items : List Condition)
  | not (item : Condition)
  | foreign (items : List Condition)

structure Effect where
  tier : Tier
  reason : String
  score : Int

structure Rule where
  ruleId : String
  when : Condition
  effect : Effect
  description : Option String

structure Policy where
  policyId : String
  version : String
  status : PolicyStatus
  reviewedBy : Option String
  description : Option String
  rules : List Rule
  scoreThresholds : List (Tier × Int)
  contentHash : String
  source : String
  referencedPaths : List String

mutual

-- The comparisons of a condition, from left to right.
def Condition.leaves : Condition → List Compare
  | .compare leaf => [leaf]
  | .allOf items => leavesOf items
  | .anyOf items => leavesOf items
  | .not item => item.leaves
  | .foreign items => leavesOf items

def leavesOf : List Condition → List Compare
  | [] => []
  | item :: rest => item.leaves ++ leavesOf rest

end

def Policy.leaves (policy : Policy) : List Compare := policy.rules.flatMap fun rule => rule.when.leaves

end Conditions

-- What the code takes from Python's library: how values are printed and hashed, and which
-- characters count as what.
structure Python where
  repr : Yaml → String
  casefold : String → String
  isSpace : Char → Bool
  isAlnum : Char → Bool
  isAlpha : Char → Bool
  isDecimal : Char → Bool
  floatRepr : Rat → String
  quote : String → String
  sha256 : String → String

end AgenticOrg.Policies
