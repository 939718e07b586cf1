import AgenticOrg.Lib.Decimal
import AgenticOrg.Lib.Table
import AgenticOrg.Spend.Rates

namespace AgenticOrg.Spend

open Tables

-- The values of `ROLLUP_DIMS`, in its order; ids are their texts.
structure Dims where
  billingDate : Date
  orgNodeId : Option String
  businessUnitNodeId : Option String
  attributionPath : Option String
  unattributedReason : Option String
  productLine : Option String
  useCase : String
  application : String
  agentId : Option String
  provider : String
  model : String
  usageType : String
  unit : String
  currency : Option String
  rateCardId : Option String
  priceSource : String
  commitmentId : Option String
  billingAccount : Option String
  region : Option String
  environment : String
  riskTier : Option String
  deriving DecidableEq

-- A usage record as its columns hold it: quantities in millionths (`NUMERIC(24,6)`, not negative),
-- amounts in units of the tenth decimal place, which no price makes negative.
structure UsageRecord where
  id : String
  eventTime : Int
  eventDate : Date
  dims : Dims
  quantity : ℕ
  calls : Bool
  amount : Option ℕ
  amountInr : Option ℕ
  unpriced : Bool
  unconverted : Bool
  fxEstimated : Bool
  overage : Bool
  overageQuantity : ℕ
  allocated : Bool
  quantityEstimated : Bool
  priceEstimated : Bool
  deriving DecidableEq

instance : Keyed UsageRecord String := ⟨UsageRecord.id⟩

def decimalQuantity (units : ℕ) : ℚ := units / 10 ^ QTY_PLACES

def decimalAmount (units : ℕ) : ℚ := units / 10 ^ AMOUNT_PLACES

end AgenticOrg.Spend
