import AgenticOrg.Lib.Decimal
import AgenticOrg.Spend.Reconcile
import Mathlib.Data.Prod.Lex
import Mathlib.Data.String.Basic

namespace AgenticOrg.Spend.Pricing

open Decimals Tables

section Data

structure FxRate where
  currency : String
  rateDate : Date
  rateToInr : ℚ

structure Usage where
  provider : String
  usageType : String
  unit : String
  quantity : ℚ
  model : String
  on : Date
  fxOn : Date
  batch : Bool
  calledModel : String

structure Selection where
  card : Option RateCard
  blendCard : Option RateCard
  unitPrice : ℚ
  divisor : ℕ
  source : String
  pathIndex : ℕ
  cardUnit : String
  estimated : Bool
  currency : String

structure Priced where
  amount : Option ℚ
  currency : Option String
  unitPrice : Option ℚ
  amountInr : Option ℚ
  fxRate : Option ℚ
  fxRateDate : Option Date
  rateCardId : Option String
  blendCardId : Option String
  cardUnit : Option String
  priceSource : String
  unpriced : Bool
  fxEstimated : Bool
  unconverted : Bool
  priceEstimated : Bool

-- A list price of the deployment, its floats as the decimals they print.
structure ModelPrice where
  source : String
  inputPerMillion : ℚ
  outputPerMillion : ℚ

-- The deployment's own prices, and the calendar.
structure PricingEnv where
  priceFor : String → String → Option ModelPrice
  daysInMonth : Date → ℕ

-- What the database holds for the tenant; a query without an order may list rows in any.
structure PricingTables where
  cards : Cards
  prices : ∀ card ∈ cards.rows, 0 ≤ card.unitPrice
  names : Naming
  rateOn : String → Date → Option FxRate
  listed : List RateCard → List RateCard
  listedPerm : ∀ rows, (listed rows).Perm rows

end Data

section Vocabulary

-- A card unit, the price it takes and what divides it: none divides by the days of the month.
structure PricePath where
  cardUnit : String
  priceField : String
  divisor : Option ℕ

def PRICE_PATHS : List (String × List PricePath) :=
  [("input_token", [⟨"1m_input_tokens", "unit_price", some 1000000⟩]),
    ("output_token", [⟨"1m_output_tokens", "unit_price", some 1000000⟩]),
    ("cached_input_token",
      [⟨"1m_cached_input_tokens", "unit_price", some 1000000⟩,
        ⟨"1m_input_tokens", "cached_unit_price", some 1000000⟩, ⟨"1m_input_tokens", "unit_price", some 1000000⟩]),
    ("token", [⟨"1m_tokens", "unit_price", some 1000000⟩, ⟨"blend", "", some 1000000⟩]),
    ("embedding_token", [⟨"1m_embedding_tokens", "unit_price", some 1000000⟩]),
    ("ocr_page", [⟨"ocr_page", "unit_price", some 1⟩]), ("audio_minute", [⟨"audio_minute", "unit_price", some 1⟩]),
    ("call", [⟨"call", "unit_price", some 1⟩]),
    ("gb_day", [⟨"gb_day", "unit_price", some 1⟩, ⟨"gb_month", "unit_price", none⟩]),
    ("gpu_node_hour", [⟨"gpu_node_hour", "unit_price", some 1⟩])]

def NO_DISCOUNT_PATHS : List (String × List ℕ) := [("cached_input_token", [2])]

def FALLBACK_SOURCES : List (String × String) :=
  [("override", "fallback_override"), ("list", "fallback_list"), ("local", "in_house")]

def ZERO_PRICED_IN_HOUSE : List String := ["llm_tokens", "embedding_tokens", "ocr_pages", "speech_minutes"]

def INPUT_SHARE : ℚ := 3 / 4
def OUTPUT_SHARE : ℚ := 1 - INPUT_SHARE

end Vocabulary

section Selecting

def inForce (card : RateCard) (on : Date) : Bool := card.effectiveFrom ≤ on && before on card.effectiveTo

-- The lowest wins, and the ids of the cards tell the rest apart.
abbrev RankKey := ℤ ×ₗ ℤ ×ₗ ℤ ×ₗ ℤ ×ₗ ℤ ×ₗ String ×ₗ String

def rankKey (specific : Bool) (pathIndex : ℕ) (unit source : String) (effectiveFrom : Date) (id blendId : String) :
    RankKey :=
  let noDiscount := ((NO_DISCOUNT_PATHS.lookup unit).getD []).contains pathIndex
  toLex (if specific then 0 else 1, toLex (if noDiscount then 1 else 0,
    toLex (if source = "contract" then 0 else 1, toLex ((pathIndex : ℤ), toLex (-effectiveFrom, toLex (id, blendId))))))

def divisorOf (env : PricingEnv) (divisor : Option ℕ) (on : Date) : ℕ := divisor.getD (env.daysInMonth on)

def candidatesFor (usage : Usage) (cards : List RateCard) (cardUnit : String) : List (Bool × RateCard) :=
  cards.filterMap fun card =>
    if card.status ≠ .active ∨ card.key.unit ≠ cardUnit ∨ inForce card usage.on = false then none
    else if card.key.provider ≠ usage.provider ∨ card.key.usageType ≠ usage.usageType then none
    else if card.key.modelSku ≠ "" ∧ card.key.modelSku = usage.model then some (true, card)
    else if card.key.modelSku = "" then some (false, card)
    else none

-- In the context of 38 digits.
def times (x y : ℚ) : ℚ := rounded CTX_DIGITS (x * y)

def blendOf (input output : ℚ) : ℚ := plus CTX_DIGITS (times input INPUT_SHARE) (times output OUTPUT_SHARE)

def blendCandidate (env : PricingEnv) (usage : Usage) (index : ℕ) (divisor : Option ℕ) (input output : Bool × RateCard) :
    Option (RankKey × Selection) :=
  if input.1 ≠ output.1 ∨ input.2.currency ≠ output.2.currency then none
  else
    let source := if input.2.key.source = output.2.key.source ∧ output.2.key.source = "contract" then "contract"
      else "list"
    let started := max input.2.effectiveFrom output.2.effectiveFrom
    some (rankKey input.1 index usage.unit source started input.2.id output.2.id,
      { card := some input.2
        blendCard := some output.2
        unitPrice := blendOf input.2.unitPrice output.2.unitPrice
        divisor := divisorOf env divisor usage.on
        source
        pathIndex := index
        cardUnit := "blend"
        estimated := true
        currency := input.2.currency })

def cardCandidate (env : PricingEnv) (usage : Usage) (index : ℕ) (path : PricePath) (found : Bool × RateCard) :
    Option (RankKey × Selection) :=
  (if path.priceField = "cached_unit_price" then found.2.cachedUnitPrice else some found.2.unitPrice).map fun price =>
    (rankKey found.1 index usage.unit found.2.key.source found.2.effectiveFrom found.2.id "",
      { card := some found.2
        blendCard := none
        unitPrice := price
        divisor := divisorOf env path.divisor usage.on
        source := found.2.key.source
        pathIndex := index
        cardUnit := path.cardUnit
        estimated := false
        currency := found.2.currency })

def rankedFor (env : PricingEnv) (usage : Usage) (cards : List RateCard) (path : PricePath × ℕ) :
    List (RankKey × Selection) :=
  if path.1.cardUnit = "blend" then
    (candidatesFor usage cards "1m_input_tokens").flatMap fun input =>
      (candidatesFor usage cards "1m_output_tokens").filterMap fun output =>
        blendCandidate env usage path.2 path.1.divisor input output
  else (candidatesFor usage cards path.1.cardUnit).filterMap (cardCandidate env usage path.2 path.1)

def ranked (env : PricingEnv) (usage : Usage) (cards : List RateCard) : List (RankKey × Selection) :=
  ((PRICE_PATHS.lookup usage.unit).getD []).zipIdx.flatMap (rankedFor env usage cards)

def selectPrice (env : PricingEnv) (usage : Usage) (cards : List RateCard) : Option Selection :=
  ((ranked env usage cards).mergeSort fun a b => a.1 ≤ b.1).head?.map (·.2)

def inHouseSelection (usage : Usage) : Selection where
  card := none
  blendCard := none
  unitPrice := 0
  divisor := 1
  source := "in_house"
  pathIndex := 0
  cardUnit := ((CANONICAL_UNIT.lookup usage.unit).map CardUnit.value).getD usage.unit
  estimated := false
  currency := REPORTING_CURRENCY

def listSelection (usage : Usage) (source : String) (unitPrice : ℚ) (estimated : Bool) : Selection where
  card := none
  blendCard := none
  unitPrice := unitPrice
  divisor := 1000000
  source := source
  pathIndex := 0
  cardUnit := ((CANONICAL_UNIT.lookup usage.unit).map CardUnit.value).getD usage.unit
  estimated := estimated
  currency := "USD"

def fallbackPrice (env : PricingEnv) (usage : Usage) : Option Selection :=
  if usage.usageType ≠ "llm_tokens" then none
  else
    let called := if usage.calledModel ≠ "" ∧ usage.calledModel ≠ usage.model then
      env.priceFor usage.provider usage.calledModel else none
    match env.priceFor usage.provider usage.model <|> called with
    | none => none
    | some price =>
        match FALLBACK_SOURCES.lookup price.source with
        | none => none
        | some source =>
            if source = "in_house" then some (inHouseSelection usage)
            else if usage.unit = "input_token" ∨ usage.unit = "cached_input_token" then
              some (listSelection usage source price.inputPerMillion false)
            else if usage.unit = "output_token" then some (listSelection usage source price.outputPerMillion false)
            else if usage.unit = "token" then
              some (listSelection usage source (blendOf price.inputPerMillion price.outputPerMillion) true)
            else none

def inHousePrice (usage : Usage) : Option Selection :=
  if usage.provider ∈ IN_HOUSE_PROVIDERS ∧ usage.usageType ∈ ZERO_PRICED_IN_HOUSE then some (inHouseSelection usage)
  else none

def selection (env : PricingEnv) (usage : Usage) (cards : List RateCard) : Option Selection :=
  selectPrice env usage cards <|> fallbackPrice env usage <|> inHousePrice usage

end Selecting

section Amounts

-- An amount at its places: nothing when the context cannot hold its digits.
def quantize (x : ℚ) : Option ℚ :=
  if |quantized AMOUNT_PLACES x| * 10 ^ AMOUNT_PLACES < 10 ^ CTX_DIGITS then some (quantized AMOUNT_PLACES x) else none

structure Converted where
  amountInr : Option ℚ
  fxRate : Option ℚ
  fxRateDate : Option Date
  fxEstimated : Bool
  unconverted : Bool

def convert (amount : ℚ) (currency : String) (on : Date) (rate : Option FxRate) : Option Converted :=
  if currency = REPORTING_CURRENCY then some ⟨some amount, some 1, some on, false, false⟩
  else if amount = 0 then some ⟨some 0, none, none, false, false⟩
  else
    match rate.filter fun rate => rate.rateDate ≤ on with
    | none => some ⟨none, none, none, false, true⟩
    | some rate =>
        (quantize (times amount rate.rateToInr)).map fun inr =>
          ⟨some inr, some rate.rateToInr, some rate.rateDate, rate.rateDate ≠ on, false⟩

def unpriced : Priced where
  amount := none
  currency := none
  unitPrice := none
  amountInr := none
  fxRate := none
  fxRateDate := none
  rateCardId := none
  blendCardId := none
  cardUnit := none
  priceSource := "none"
  unpriced := true
  fxEstimated := false
  unconverted := false
  priceEstimated := false

def discounted (price : ℚ) (card : RateCard) : ℚ :=
  if card.batchDiscountPct = 0 then price
  else times price (plus CTX_DIGITS 1 (-rounded CTX_DIGITS (card.batchDiscountPct / 100)))

def chargedUnitPrice (usage : Usage) (selection : Selection) : ℚ :=
  match selection.card with
  | none => selection.unitPrice
  | some card =>
      if !usage.batch then selection.unitPrice
      else
        match selection.blendCard with
        | some blendCard => blendOf (discounted card.unitPrice card) (discounted blendCard.unitPrice blendCard)
        | none => discounted selection.unitPrice card

def amountOf (usage : Usage) (selection : Selection) : Option ℚ :=
  quantize (times (rounded CTX_DIGITS (usage.quantity / selection.divisor)) (chargedUnitPrice usage selection))

-- Nothing when an amount does not fit, which the code raises.
def priceWith (env : PricingEnv) (usage : Usage) (cards : List RateCard) (rateFor : String → Option FxRate) :
    Option Priced :=
  match selection env usage cards with
  | none => some unpriced
  | some selection =>
      (amountOf usage selection).bind fun amount =>
        let rate := if selection.currency ≠ REPORTING_CURRENCY ∧ amount ≠ 0 then rateFor selection.currency else none
        (convert amount selection.currency usage.fxOn rate).map fun converted =>
          { amount := some amount
            currency := some selection.currency
            unitPrice := some selection.unitPrice
            amountInr := converted.amountInr
            fxRate := converted.fxRate
            fxRateDate := converted.fxRateDate
            rateCardId := selection.card.map (·.id)
            blendCardId := selection.blendCard.map (·.id)
            cardUnit := some selection.cardUnit
            priceSource := selection.source
            unpriced := false
            fxEstimated := converted.fxEstimated
            unconverted := converted.unconverted
            priceEstimated := selection.estimated }

end Amounts

section Batches

-- The model canonical, and the name as called when an alias replaced it.
def throughAliases (names : Naming) (usage : Usage) : Usage :=
  let called := canonicalModel { names with aliases := fun _ => none } usage.provider usage.model
  let model := canonicalModel names usage.provider usage.model
  { usage with
    model
    calledModel := if usage.calledModel ≠ "" then usage.calledModel else if called ≠ model then called else "" }

def loadCards (tables : PricingTables) (providers usageTypes : List String) (start stop : Date) : List RateCard :=
  tables.listed (tables.cards.rows.filter fun card =>
    card.status = .active && providers.contains card.key.provider && usageTypes.contains card.key.usageType &&
      card.effectiveFrom ≤ stop && before start card.effectiveTo)

-- The rate that a usage is expected to need.
def neededRate (env : PricingEnv) (cards : List RateCard) (usage : Usage) : Option (String × Date) :=
  (selection env usage cards).bind fun selection =>
    if selection.currency ≠ REPORTING_CURRENCY ∧ selection.unitPrice ≠ 0 ∧ usage.quantity ≠ 0 then
      some (selection.currency, usage.fxOn)
    else none

def priceMany (env : PricingEnv) (tables : PricingTables) (usages : List Usage) : Option (List Priced) :=
  match usages.map (throughAliases tables.names) with
  | [] => some []
  | first :: rest =>
      let usages := first :: rest
      let cards := loadCards tables (usages.map (·.provider)) (usages.map (·.usageType))
        (rest.foldl (fun start usage => min start usage.on) first.on)
        (rest.foldl (fun stop usage => max stop usage.on) first.on)
      let rates := ((usages.filterMap (neededRate env cards)).eraseDups).map fun key => (key, tables.rateOn key.1 key.2)
      usages.mapM fun usage =>
        priceWith env usage cards fun currency => (rates.lookup (currency, usage.fxOn)).join

def price (env : PricingEnv) (tables : PricingTables) (usage : Usage) : Option Priced :=
  (priceMany env tables [usage]).bind List.head?

end Batches

end AgenticOrg.Spend.Pricing
