import AgenticOrg.Lib.Dict

namespace AgenticOrg.Workflows

-- A YAML or JSON scalar, as step ids and path names are. A float carries its
-- printed form, which is what it is written as when it becomes an object key.
-- Timestamps stand as the text they are stored as; `nan` is left out.
inductive Scalar where
  | null
  | bool (value : Bool)
  | int (value : Int)
  | float (text : String) (value : Rat)
  | infinity (negative : Bool)
  | str (text : String)

-- What `==` and `hash` see of a scalar: `True`, `1` and `1.0` are one key.
inductive Canon where
  | null
  | num (value : Rat)
  | infinity (negative : Bool)
  | str (text : String)
  deriving DecidableEq

namespace Scalar

def canon : Scalar → Canon
  | null => .null
  | bool value => .num (if value then 1 else 0)
  | int value => .num value
  | float _ value => .num value
  | infinity negative => .infinity negative
  | str text => .str text

instance : BEq Scalar := ⟨fun a b => decide (a.canon = b.canon)⟩

theorem beq_iff (a b : Scalar) : (a == b) = true ↔ a.canon = b.canon := by
  show decide (a.canon = b.canon) = true ↔ _
  exact decide_eq_true_iff

theorem beq_eq_false_iff (a b : Scalar) : (a == b) = false ↔ a.canon ≠ b.canon := by
  rw [← Bool.not_eq_true, beq_iff]

instance : EquivBEq Scalar where
  rfl := (beq_iff _ _).mpr rfl
  symm h := (beq_iff _ _).mpr ((beq_iff _ _).mp h).symm
  trans h h' := (beq_iff _ _).mpr (((beq_iff _ _).mp h).trans ((beq_iff _ _).mp h'))

-- `str(value)`
def display : Scalar → String
  | null => "None"
  | bool value => if value then "True" else "False"
  | int value => toString value
  | float text _ => text
  | infinity negative => if negative then "-inf" else "inf"
  | str text => text

-- The object key `json.dumps` writes for it.
def key : Scalar → String
  | null => "null"
  | bool value => if value then "true" else "false"
  | int value => toString value
  | float text _ => text
  | infinity negative => if negative then "-Infinity" else "Infinity"
  | str text => text

def jsonKey (scalar : Scalar) : Scalar := .str scalar.key

def truthy : Scalar → Bool
  | null => false
  | bool value => value
  | int value => value ≠ 0
  | float _ value => value ≠ 0
  | infinity _ => true
  | str text => text ≠ ""

def isText : Scalar → Bool
  | str _ => true
  | _ => false

@[simp] theorem jsonKey_jsonKey (scalar : Scalar) : scalar.jsonKey.jsonKey = scalar.jsonKey := rfl

theorem jsonKey_of_isText (scalar : Scalar) (h : scalar.isText = true) : scalar.jsonKey = scalar := by
  cases scalar with
  | str text => rfl
  | _ => cases h

theorem isText_of_beq (a b : Scalar) (h : (a == b) = true) (hb : b.isText = true) : a.isText = true := by
  have hc := (beq_iff a b).mp h
  cases b with
  | str text =>
      cases a with
      | str other => rfl
      | _ => cases hc
  | _ => cases hb

theorem eq_of_beq_text (a b : Scalar) (ha : a.isText = true) (hb : b.isText = true)
    (h : (a == b) = true) : a = b := by
  have hc := (beq_iff a b).mp h
  cases a with
  | str text =>
      cases b with
      | str other =>
          cases hc
          rfl
      | _ => cases hb
  | _ => cases ha

-- A key that has been stored is a text, and only a text can still be equal to it.
theorem jsonKey_beq (a b : Scalar) (hb : b.isText = false) : (a.jsonKey == b) = false := by
  rw [beq_eq_false_iff]
  cases b with
  | str text => cases hb
  | _ => simp [jsonKey, canon]

end Scalar

-- A JSON value: what handlers return, what decisions and payloads are.
inductive Json where
  | scalar (value : Scalar)
  | arr (items : List Json)
  | obj (fields : List (String × Json))

namespace Json

def null : Json := .scalar .null

def str (text : String) : Json := .scalar (.str text)

def bool (value : Bool) : Json := .scalar (.bool value)

def nat (value : Nat) : Json := .scalar (.int value)

def get? : Json → String → Option Json
  | .obj fields, key => (fields.find? (·.1 == key)).map Prod.snd
  | _, _ => none

-- `value.get(key)` of a dict, `None` when the key is missing.
def get (value : Json) (key : String) : Json := (value.get? key).getD null

-- The text of a value that is one, else the empty text.
def text : Json → String
  | .scalar (.str text) => text
  | _ => ""

def isDict : Json → Bool
  | .obj _ => true
  | _ => false

def truthy : Json → Bool
  | .scalar value => value.truthy
  | .arr items => !items.isEmpty
  | .obj fields => !fields.isEmpty

def setFields (key : String) (value : Json) : List (String × Json) → List (String × Json)
  | [] => [(key, value)]
  | field :: rest =>
      if field.1 == key then (key, value) :: rest else field :: setFields key value rest

def set : Json → String → Json → Json
  | .obj fields, key, value => .obj (setFields key value fields)
  | other, _, _ => other

end Json

end AgenticOrg.Workflows
