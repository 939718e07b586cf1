import AgenticOrg.Lib.Decimal
import AgenticOrg.Lib.Fallible
import AgenticOrg.Workflows.Values

namespace AgenticOrg.Commerce.Ucp

open AgenticOrg.Workflows (Json Scalar)

section Units

def MAX_QUANTITY : ℕ := 2 ^ 53 - 1

def MAX_SCALE : ℕ := 15

def EACH : String := "C62"

-- A count of steps.
abbrev Quantity := { steps : ℕ // 1 ≤ steps ∧ steps ≤ MAX_QUANTITY }

structure QuantityError where
  code : String
  message : String
  deriving DecidableEq

-- What one step of an item is: `10 ^ -scale` of its unit.
structure QuantityUnit where
  unit : String
  scale : ℕ
  displayText : String
  increment : ℕ
  scale_le : scale ≤ MAX_SCALE
  increment_mem : 1 ≤ increment ∧ increment ≤ MAX_QUANTITY
  deriving DecidableEq

def QuantityUnit.identity (unit : QuantityUnit) : String × ℕ := (unit.unit, unit.scale)

def QuantityUnit.isEach (unit : QuantityUnit) : Bool := unit.unit = EACH && unit.scale = 0

end Units

section Parsing

variable (strip : String → String)

def isCodeChar (c : Char) : Bool := ('0' ≤ c && c ≤ '9') || ('A' ≤ c && c ≤ 'Z')

-- `^X[0-9A-Z]{2}$`, of a text without blanks around it
def isPackageCode (unit : String) : Bool :=
  match unit.toList with
  | [x, a, b] => x = 'X' && isCodeChar a && isCodeChar b
  | _ => false

def invalidUnit (message : String) : QuantityError := ⟨"invalid_quantity_unit", message⟩

-- The whole number of a JSON integer between the bounds.
def intWithin (low high : ℕ) : Json → Option { n : ℕ // low ≤ n ∧ n ≤ high }
  | .scalar (.int value) =>
      if h : (low : ℤ) ≤ value ∧ value ≤ high then some ⟨value.toNat, by omega, by omega⟩ else none
  | _ => none

def nonBlank : Json → Option String
  | .scalar (.str text) => if strip text = "" then none else some (strip text)
  | _ => none

def parseQuantityUnit (value : Json) : Except QuantityError QuantityUnit := do
  if !value.isDict then throw (invalidUnit "quantity_unit must be an object")
  let unit ← (nonBlank strip (value.get "unit")).elim (throw (invalidUnit "quantity_unit.unit is required")) pure
  if isPackageCode unit then throw (invalidUnit "Recommendation 21 package codes are not sale units")
  let scale ← (intWithin 0 MAX_SCALE ((value.get? "scale").getD (.nat 0))).elim
    (throw (invalidUnit "quantity_unit.scale must be an integer from 0 to 15")) pure
  if unit = EACH ∧ scale.val ≠ 0 then throw (invalidUnit "C62 (each) has scale 0")
  let increment ← (intWithin 1 MAX_QUANTITY ((value.get? "increment").getD (.nat 1))).elim
    (throw (invalidUnit "quantity_unit.increment must be a positive integer")) pure
  let display ← (nonBlank strip (value.get "display_text")).elim
    (throw (invalidUnit "quantity_unit.display_text is required")) pure
  return {
    unit := unit
    scale := scale.val
    displayText := display
    increment := increment.val
    scale_le := scale.property.2
    increment_mem := increment.property }

-- A JSON integer; `True` and `2.0` are none.
def isInt : Json → Bool
  | .scalar (.int _) => true
  | _ => false

def parseQuantity (value : Json) : Except QuantityError Quantity :=
  if !isInt value then .error ⟨"invalid_quantity", "quantity must be an integer step count"⟩
  else (intWithin 1 MAX_QUANTITY value).elim
    (.error ⟨"invalid_quantity", "quantity must be between 1 and 9007199254740991"⟩) .ok

end Parsing

section Amounts

-- Price times steps of `10 ^ -scale` units, in whole minor units.
def lineAmount (unitPrice : ℤ) (quantity scale : ℕ) : ℤ :=
  let numerator := unitPrice * quantity
  let denominator : ℤ := 10 ^ scale
  let quotient := numerator / denominator
  let twice := numerator % denominator * 2
  if twice > denominator ∨ (twice = denominator ∧ quotient % 2 = 1) then quotient + 1 else quotient

end Amounts

section Reconciling

structure Reconciled where
  quantity : Quantity
  -- its code and content
  warning : Option (String × String)

-- The steps of the item's scale that so many steps of the asserted scale are, where they are whole.
def convert (asserted authoritative quantity : ℕ) : Option ℕ :=
  if asserted ≤ authoritative then some (quantity * 10 ^ (authoritative - asserted))
  else if quantity % 10 ^ (asserted - authoritative) = 0 then some (quantity / 10 ^ (asserted - authoritative))
  else none

def convertedWarning (asserted authoritative : QuantityUnit) (quantity converted : ℕ) : String × String :=
  ("quantity_converted",
    "Quantity converted from scale " ++ toString asserted.scale ++ " to scale " ++ toString authoritative.scale ++
      " of " ++ authoritative.unit ++ ": " ++ toString quantity ++ " became " ++ toString converted ++ " steps.")

def notWhole (asserted authoritative : QuantityUnit) (quantity : ℕ) : QuantityError :=
  ⟨"quantity_unit_mismatch",
    toString quantity ++ " steps at scale " ++ toString asserted.scale ++
      " is not a whole number of steps at scale " ++ toString authoritative.scale ++ "."⟩

def wrongUnit (asserted authoritative : QuantityUnit) : QuantityError :=
  ⟨"quantity_unit_mismatch",
    "This item is sold in " ++ authoritative.displayText ++ " (" ++ authoritative.unit ++ "), not " ++
      asserted.unit ++ "."⟩

def reconcile (asserted : Option QuantityUnit) (authoritative : QuantityUnit) (quantity : Quantity) :
    Except QuantityError Reconciled :=
  match asserted with
  | none => .ok ⟨quantity, none⟩
  | some asserted =>
      if asserted.identity = authoritative.identity then .ok ⟨quantity, none⟩
      else if asserted.unit ≠ authoritative.unit then .error (wrongUnit asserted authoritative)
      else
        match convert asserted.scale authoritative.scale quantity.val with
        | none => .error (notWhole asserted authoritative quantity.val)
        | some converted => do
            let steps ← parseQuantity (.nat converted)
            return ⟨steps, some (convertedWarning asserted authoritative quantity.val converted)⟩

end Reconciling

end AgenticOrg.Commerce.Ucp
