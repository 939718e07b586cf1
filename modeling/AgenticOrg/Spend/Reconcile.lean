import AgenticOrg.Lib.Decimal
import AgenticOrg.Lib.Dict
import AgenticOrg.Spend.Rates

namespace AgenticOrg.Spend

open OrderedDict Decimals

section Vocabulary

inductive UsageType where
  | llmTokens
  | embeddingTokens
  | ocrPages
  | speechMinutes
  | toolCalls
  | storage
  | gpuHours
  deriving DecidableEq

def UsageType.value : UsageType → String
  | .llmTokens => "llm_tokens"
  | .embeddingTokens => "embedding_tokens"
  | .ocrPages => "ocr_pages"
  | .speechMinutes => "speech_minutes"
  | .toolCalls => "tool_calls"
  | .storage => "storage"
  | .gpuHours => "gpu_hours"

-- The units of rate cards, which invoice lines and items use too.
inductive CardUnit where
  | inputTokens1m
  | outputTokens1m
  | cachedInputTokens1m
  | tokens1m
  | embeddingTokens1m
  | ocrPage
  | audioMinute
  | call
  | gbMonth
  | gbDay
  | gpuNodeHour
  deriving DecidableEq

def CardUnit.value : CardUnit → String
  | .inputTokens1m => "1m_input_tokens"
  | .outputTokens1m => "1m_output_tokens"
  | .cachedInputTokens1m => "1m_cached_input_tokens"
  | .tokens1m => "1m_tokens"
  | .embeddingTokens1m => "1m_embedding_tokens"
  | .ocrPage => "ocr_page"
  | .audioMinute => "audio_minute"
  | .call => "call"
  | .gbMonth => "gb_month"
  | .gbDay => "gb_day"
  | .gpuNodeHour => "gpu_node_hour"

def CANONICAL_DIVISOR : CardUnit → ℚ
  | .inputTokens1m | .outputTokens1m | .cachedInputTokens1m | .tokens1m | .embeddingTokens1m => 1000000
  | _ => 1

def CANONICAL_UNIT : List (String × CardUnit) :=
  [("input_token", .inputTokens1m), ("cached_input_token", .cachedInputTokens1m),
    ("output_token", .outputTokens1m), ("token", .tokens1m), ("embedding_token", .embeddingTokens1m),
    ("ocr_page", .ocrPage), ("audio_minute", .audioMinute), ("call", .call), ("gb_day", .gbDay),
    ("gpu_node_hour", .gpuNodeHour)]

inductive LineKind where
  | usage
  | credit
  | tax
  | fee
  | commitment
  deriving DecidableEq

def IN_HOUSE_PROVIDERS : List String :=
  ["ollama", "vllm", "local_embeddings", "tei", "tesseract", "faster_whisper"]

-- The digits of the decimal context set for products and quotients.
def CTX_DIGITS : Nat := 38

def TOLERANCE_PCT : ℚ := 1

def PCT_PLACES : Nat := 6
def PCT_LIMIT : ℚ := 99999999999999 / 1000000

end Vocabulary

section Data

inductive Figure where
  | stored
  | repriced
  deriving DecidableEq

-- A month-level part of one of the two figures: an overage or a tier true-up.
structure Adjustment where
  kind : String
  figure : Figure
  amount : Option ℚ

structure PricedGroup where
  billingDate : Date
  usageType : UsageType
  model : String
  canonicalUnit : CardUnit
  quantityCanonical : ℚ
  unpricedQuantity : ℚ
  unconvertedAmount : ℚ
  storedAmount : Option ℚ
  repricedAmount : Option ℚ
  adjustments : List Adjustment
  fxConverted : Bool

structure InvoiceLine where
  id : String
  invoiceId : String
  lineNo : Int
  lineKind : LineKind
  usageType : Option UsageType
  modelSku : String
  unit : Option CardUnit
  quantity : Option ℚ
  amount : ℚ
  usageDate : Option Date

structure ItemKey where
  usageType : Option UsageType
  model : String
  unit : Option CardUnit
  day : Option Date
  deriving DecidableEq

inductive ItemStatus where
  | withinTolerance
  | needsReview
  | accepted
  | informational
  deriving DecidableEq

structure DayFigures where
  date : Date
  meteredQuantity : ℚ
  storedAmount : Option ℚ
  repricedAmount : Option ℚ

structure Item where
  lineKind : LineKind
  key : ItemKey
  invoiceQuantity : Option ℚ
  meteredQuantity : ℚ
  invoiceAmount : ℚ
  storedAmount : Option ℚ
  repricedAmount : Option ℚ
  adjustments : List Adjustment
  storedVarianceAmount : Option ℚ
  storedVariancePct : Option ℚ
  repricedVarianceAmount : Option ℚ
  repricedVariancePct : Option ℚ
  status : ItemStatus
  fxConverted : Bool
  unpricedQuantity : ℚ
  unconvertedAmount : ℚ
  invoiceLineIds : List String
  days : List DayFigures
  members : List PricedGroup

-- `item_kind` is "usage" exactly for the items of usage lines and of groups.
def Item.isUsage (item : Item) : Bool := item.lineKind = .usage

-- The names of models: the tenant's aliases, and what Python does with text.
structure Naming where
  aliases : String × String → Option String
  strip : String → String
  lower : String → String

end Data

section Figures

def PricedGroup.base (group : PricedGroup) : Figure → Option ℚ
  | .stored => group.storedAmount
  | .repriced => group.repricedAmount

-- `total_stored` and `total_repriced`
def PricedGroup.total (group : PricedGroup) (figure : Figure) : Option ℚ :=
  (group.adjustments.filter (·.figure = figure)).foldl
    (fun sum adjustment => sum.bind fun sum => adjustment.amount.map fun x => plus DEFAULT_DIGITS sum x)
    (group.base figure)

-- `_sum`
def sumKnown (values : List (Option ℚ)) : Option ℚ := totalKnown DEFAULT_DIGITS values

def totalOf (members : List PricedGroup) (figure : Figure) : Option ℚ :=
  sumKnown (members.map fun member => member.total figure)

def varianceAmount (figure : Option ℚ) (invoice : ℚ) : Option ℚ :=
  figure.map fun figure => rounded DEFAULT_DIGITS (figure - invoice)

-- In percent of the invoice, where that is defined.
def variancePct (figure : Option ℚ) (invoice : ℚ) : Option ℚ :=
  match figure with
  | none => none
  | some figure =>
      if invoice > 0 then
        some (rounded CTX_DIGITS
          (rounded CTX_DIGITS (rounded DEFAULT_DIGITS (figure - invoice) / invoice) * 100))
      else if figure = 0 ∧ invoice = 0 then some 0
      else none

def withinTolerance (pct : Option ℚ) : Bool :=
  match pct with
  | none => false
  | some pct => absolute DEFAULT_DIGITS pct ≤ TOLERANCE_PCT

def statusFor (stored repriced : Option ℚ) (invoice : ℚ) : ItemStatus :=
  if withinTolerance (variancePct stored invoice) && withinTolerance (variancePct repriced invoice) then
    .withinTolerance
  else .needsReview

-- A percentage as it is stored and displayed.
def pctShown (pct : Option ℚ) : Option ℚ :=
  pct.map fun pct =>
    if absolute DEFAULT_DIGITS pct > PCT_LIMIT then (if pct > 0 then PCT_LIMIT else -PCT_LIMIT)
    else quantizedUp PCT_PLACES pct

end Figures

section Keys

-- `[A-Za-z0-9][A-Za-z0-9 ._:/@-]{0,127}`
def isSku (name : String) : Bool :=
  match name.toList with
  | [] => false
  | first :: rest =>
      first.isAlphanum && rest.length ≤ 127 &&
        rest.all fun c => c.isAlphanum || " ._:/@-".toList.contains c

def canonicalModel (names : Naming) (provider model : String) : String :=
  let name := names.strip model
  if name = "" then ""
  else if !isSku name then String.ofList ((names.lower name).toList.take 128)
  else if IN_HOUSE_PROVIDERS.contains provider then names.lower name
  else (names.aliases (provider, names.lower name)).getD (names.lower name)

def itemUnitQuantity (unit : Option CardUnit) (quantity : Option ℚ) (daysInMonth : Nat) :
    Option CardUnit × Option ℚ :=
  if unit = some .gbMonth then
    (some .gbDay, quantity.map fun quantity => rounded DEFAULT_DIGITS (quantity * daysInMonth))
  else (unit, quantity)

def lineKey (names : Naming) (provider : String) (daysInMonth : Nat) (line : InvoiceLine) :
    ItemKey × Option ℚ :=
  let model := if line.modelSku = "" then "" else canonicalModel names provider line.modelSku
  let (unit, quantity) := itemUnitQuantity line.unit line.quantity daysInMonth
  (⟨line.usageType, model, unit, line.usageDate⟩, quantity)

def fits (key : ItemKey) (group : PricedGroup) : Bool :=
  some group.usageType = key.usageType && (key.model = "" || group.model = key.model) &&
    (key.unit = none || some group.canonicalUnit = key.unit) &&
    (key.day = none || some group.billingDate = key.day)

def lineOrder (a b : InvoiceLine) : Ordering :=
  (compare a.invoiceId b.invoiceId).then (compare a.lineNo b.lineNo)

end Keys

section Items

-- The lines of one key with their sums.
structure LineEntry where
  lines : List InvoiceLine
  amount : ℚ
  quantities : List (Option ℚ)

def addLine (names : Naming) (provider : String) (daysInMonth : Nat) (old : Option LineEntry)
    (line : InvoiceLine) : LineEntry :=
  let entry := old.getD ⟨[], 0, []⟩
  { lines := entry.lines ++ [line]
    amount := plus DEFAULT_DIGITS entry.amount line.amount
    quantities := entry.quantities ++ [(lineKey names provider daysInMonth line).2] }

def dayFigures (members : List PricedGroup) : List DayFigures :=
  let byDay := Dict.gather PricedGroup.billingDate (fun old member => old.getD [] ++ [member]) members
  (byDay.entries.mergeSort fun a b => a.1 ≤ b.1).map fun entry =>
    { date := entry.1
      meteredQuantity := quantized QTY_PLACES (total DEFAULT_DIGITS (entry.2.map (·.quantityCanonical)))
      storedAmount := (totalOf entry.2 .stored).map (quantized AMOUNT_PLACES)
      repricedAmount := (totalOf entry.2 .repriced).map (quantized AMOUNT_PLACES) }

-- Known when there is a unit, and a quantity on every line.
def invoiceQuantity (unit : Option CardUnit) (quantities : List (Option ℚ)) : Option ℚ :=
  if quantities.isEmpty || unit.isNone then none
  else (sumKnown quantities).map (quantized QTY_PLACES)

-- Quotients and sums in the wider context.
def unpricedOf (members : List PricedGroup) : ℚ :=
  members.foldl
    (fun sum member =>
      rounded CTX_DIGITS
        (sum + rounded CTX_DIGITS (member.unpricedQuantity / CANONICAL_DIVISOR member.canonicalUnit)))
    0

def usageItem (key : ItemKey) (entry : Option LineEntry) (members : List PricedGroup) : Item :=
  let stored := totalOf members .stored
  let repriced := totalOf members .repriced
  let amount := (entry.map (·.amount)).getD 0
  { lineKind := .usage
    key := key
    invoiceQuantity := invoiceQuantity key.unit ((entry.map (·.quantities)).getD [])
    meteredQuantity := quantized QTY_PLACES (total DEFAULT_DIGITS (members.map (·.quantityCanonical)))
    invoiceAmount := amount
    storedAmount := stored
    repricedAmount := repriced
    adjustments := members.flatMap (·.adjustments)
    storedVarianceAmount := varianceAmount stored amount
    storedVariancePct := variancePct stored amount
    repricedVarianceAmount := varianceAmount repriced amount
    repricedVariancePct := variancePct repriced amount
    status := statusFor stored repriced amount
    fxConverted := members.any (·.fxConverted)
    unpricedQuantity := quantized QTY_PLACES (unpricedOf members)
    unconvertedAmount := total DEFAULT_DIGITS (members.map (·.unconvertedAmount))
    invoiceLineIds := ((entry.map (·.lines)).getD []).map (·.id) |>.mergeSort
    days := if key.day = none then dayFigures members else []
    members := members }

def nonUsageItem (line : InvoiceLine) : Item :=
  { lineKind := line.lineKind
    key := ⟨line.usageType, line.modelSku, line.unit, line.usageDate⟩
    invoiceQuantity := line.quantity
    meteredQuantity := 0
    invoiceAmount := line.amount
    storedAmount := none
    repricedAmount := none
    adjustments := []
    storedVarianceAmount := none
    storedVariancePct := none
    repricedVarianceAmount := none
    repricedVariancePct := none
    status := .informational
    fxConverted := false
    unpricedQuantity := 0
    unconvertedAmount := 0
    invoiceLineIds := [line.id]
    days := []
    members := [] }

end Items

section Matching

-- A line that names a model and a unit.
def ItemKey.isExact (key : ItemKey) : Bool := key.model ≠ "" && key.unit.isSome

-- The order of two entries by their first lines; an entry has one.
def firstLineOrder (a b : LineEntry) : Ordering :=
  match a.lines, b.lines with
  | first :: _, other :: _ => lineOrder first other
  | _, _ => .eq

def exactOrder (a b : ItemKey × LineEntry) : Ordering :=
  (compare a.1.day.isNone b.1.day.isNone).then (firstLineOrder a.2 b.2)

-- A model before a unit before neither, a day before a month.
def looseOrder (a b : ItemKey × LineEntry) : Ordering :=
  (compare (a.1.model = "" : Bool) (b.1.model = "" : Bool)).then
    ((compare a.1.unit.isNone b.1.unit.isNone).then
      ((compare a.1.day.isNone b.1.day.isNone).then (firstLineOrder a.2 b.2)))

-- Each entry in turn takes what fits of the groups that are left.
def takeGroups : List (ItemKey × LineEntry) → List PricedGroup → List Item × List PricedGroup
  | [], remaining => ([], remaining)
  | (key, entry) :: rest, remaining =>
      let chosen := remaining.filter (fits key)
      let (items, left) := takeGroups rest (remaining.filter fun group => !fits key group)
      (usageItem key (some entry) chosen :: items, left)

abbrev LeftoverKey := UsageType × String × CardUnit

def leftoverKey (group : PricedGroup) : LeftoverKey := (group.usageType, group.model, group.canonicalUnit)

def leftoverOrder (a b : LeftoverKey) : Ordering :=
  (compare a.1.value b.1.value).then ((compare a.2.1 b.2.1).then (compare a.2.2.value b.2.2.value))

-- Groups of one usage type, model and unit are one item without an invoice amount.
def leftoverItems (remaining : List PricedGroup) : List Item :=
  let leftovers := Dict.gather leftoverKey (fun old group => old.getD [] ++ [group]) remaining
  (leftovers.entries.mergeSort fun a b => (leftoverOrder a.1 b.1).isLE).map fun entry =>
    usageItem ⟨some entry.1.1, entry.1.2.1, some entry.1.2.2, none⟩ none entry.2

def mergedLines (names : Naming) (provider : String) (daysInMonth : Nat) (lines : List InvoiceLine) :
    Dict ItemKey LineEntry :=
  Dict.gather (fun line => (lineKey names provider daysInMonth line).1) (addLine names provider daysInMonth)
    ((lines.filter (·.lineKind = .usage)).mergeSort fun a b => (lineOrder a b).isLE)

-- First the lines that name a model and a unit, then those that leave one open.
def orderedEntries (merged : List (ItemKey × LineEntry)) : List (ItemKey × LineEntry) :=
  let exact := (merged.filter (·.1.isExact)).mergeSort fun a b => (exactOrder a b).isLE
  let loose := (merged.filter fun entry => !entry.1.isExact).mergeSort fun a b => (looseOrder a b).isLE
  exact ++ loose

def matchLines (names : Naming) (provider : String) (daysInMonth : Nat) (lines : List InvoiceLine)
    (priced : List PricedGroup) : List Item :=
  let entries := orderedEntries (mergedLines names provider daysInMonth lines).entries
  let (items, remaining) := takeGroups entries priced
  let others := (lines.filter (·.lineKind ≠ .usage)).mergeSort fun a b => (lineOrder a b).isLE
  items ++ leftoverItems remaining ++ others.map nonUsageItem

def Item.amount (item : Item) : Figure → Option ℚ
  | .stored => item.storedAmount
  | .repriced => item.repricedAmount

-- The figures of the whole month.
structure ProviderLevel where
  stored : Option ℚ
  repriced : Option ℚ
  status : ItemStatus
  storedPct : Option ℚ
  repricedPct : Option ℚ
  storedAdjustments : ℚ
  repricedAdjustments : ℚ

def ProviderLevel.amount (level : ProviderLevel) : Figure → Option ℚ
  | .stored => level.stored
  | .repriced => level.repriced

def sumAdjustments (usage : List Item) (figure : Figure) : ℚ :=
  total DEFAULT_DIGITS
    (((usage.flatMap (·.adjustments)).filter (·.figure = figure)).filterMap (·.amount))

def providerLevel (items : List Item) (invoiceAmount : ℚ) : ProviderLevel :=
  let usage := items.filter Item.isUsage
  let stored := sumKnown (usage.map (·.storedAmount))
  let repriced := sumKnown (usage.map (·.repricedAmount))
  { stored := stored
    repriced := repriced
    status := statusFor stored repriced invoiceAmount
    storedPct := variancePct stored invoiceAmount
    repricedPct := variancePct repriced invoiceAmount
    storedAdjustments := sumAdjustments usage .stored
    repricedAdjustments := sumAdjustments usage .repriced }

end Matching

end AgenticOrg.Spend
