import AgenticOrg.Commerce.Ucp.Quantity

namespace AgenticOrg.Commerce.Ucp

open AgenticOrg.Workflows (Json Scalar)

section Messages

inductive Kind where
  | error
  | warning
  | info
  deriving DecidableEq

-- The severity of every error here is `recoverable`.
structure Message where
  kind : Kind
  code : String
  content : String
  path : String
  deriving DecidableEq

def error (code content path : String) : Message := ⟨.error, code, content, path⟩

def warning (code content path : String) : Message := ⟨.warning, code, content, path⟩

def hasErrors (messages : List Message) : Bool := messages.any fun message => message.kind = .error

-- What a request that is not evaluated ends in: a refusal, or an operation Python does not have on the value.
inductive Refusal where
  | request (text : String)
  | typeError
  deriving DecidableEq

def require (test : Bool) (text : String) : Except Refusal Unit := if test then .ok () else .error (.request text)

end Messages

section Catalog

structure CatalogItem where
  title : String
  price : ℤ
  currency : String
  inventory : Option ℤ
  imageUrl : Option String
  quantityUnit : QuantityUnit
  variantId : Option String

-- The items of a lookup of so many ids, by id.
abbrev ItemCatalog := List String → String → Option CatalogItem

def VARIANT_GID : String := "gid://shopify/ProductVariant/"

-- The numeric part of a Shopify variant gid.
def CatalogItem.storefrontVariantToken (item : CatalogItem) : Option String :=
  item.variantId.bind fun gid =>
    if gid.startsWith VARIANT_GID then some (String.ofList (gid.toList.reverse.takeWhile (· ≠ '/')).reverse) else none

end Catalog

section Lines

structure RenderedItem where
  id : String
  title : String
  price : ℤ
  imageUrl : Option String
  quantityUnit : Option QuantityUnit

-- `amount` is both its subtotal and its total.
structure Line where
  id : String
  quantity : Quantity
  parentId : Option String
  item : RenderedItem
  amount : ℤ
  storefrontVariant : Option String

structure ParsedItem where
  lineId : Option String
  itemId : String
  quantity : Quantity
  asserted : Option Json
  parent : Option String

-- The text of a value that is one and not empty.
def givenText : Json → Option String
  | .scalar (.str text) => if text = "" then none else some text
  | _ => none

-- `None` is no value.
def given : Json → Option Json
  | .scalar .null => none
  | value => some value

def V2026_08_25 : String := "2026-08-25"

def MAX_LINE_ITEMS : ℕ := 100

def requireList (body : Json) (name : String) : Except Refusal (List Json) :=
  match body.get name with
  | .arr (first :: rest) =>
      if (first :: rest).length > MAX_LINE_ITEMS then
        .error (.request ("at most " ++ toString MAX_LINE_ITEMS ++ " line items"))
      else .ok (first :: rest)
  | _ => .error (.request (name ++ " must be a non-empty array"))

def lineName (index : ℕ) : String := "line_items[" ++ toString index ++ "]"

def parseItem (version : String) (index : ℕ) (raw : Json) : Except Refusal ParsedItem := do
  require (raw.isDict && (raw.get "item").isDict) (lineName index ++ " needs an item object")
  let itemId ← (givenText ((raw.get "item").get "id")).elim
    (.error (.request (lineName index ++ ".item.id is required"))) .ok
  require (itemId.length ≤ 200) (lineName index ++ ".item.id is required")
  let quantity ← (parseQuantity (raw.get "quantity")).mapError fun fault =>
    .request (lineName index ++ ".quantity: " ++ fault.message)
  return {
    lineId := givenText (raw.get "id")
    itemId := itemId
    quantity := quantity
    asserted := if V2026_08_25 ≤ version then given ((raw.get "item").get "quantity_unit") else none
    parent := givenText (raw.get "parent_id") }

def parseItems (version : String) : ℕ → List Json → Except Refusal (List ParsedItem)
  | _, [] => .ok []
  | index, raw :: rest => do
      let entry ← parseItem version index raw
      let others ← parseItems version (index + 1) rest
      return entry :: others

def lineId (k : ℕ) : String := "li_" ++ toString k

-- The id a line keeps or gets, and the next counter.
def chooseId (previousIds used : List String) (nextSeq : ℕ) (requested : Option String) : String × ℕ :=
  match requested with
  | some id => if id ∈ previousIds ∧ id ∉ used then (id, nextSeq) else (lineId nextSeq, nextSeq + 1)
  | none => (lineId nextSeq, nextSeq + 1)

variable (strip : String → String)

-- The quantity a line is priced at, with what is said about its unit.
def settleQuantity (path : String) (item : CatalogItem) (entry : ParsedItem) : Quantity × List Message :=
  match entry.asserted with
  | none => (entry.quantity, [])
  | some asserted =>
      match (do reconcile (some (← parseQuantityUnit strip asserted)) item.quantityUnit entry.quantity) with
      | .error fault => (entry.quantity, [error fault.code fault.message (path ++ ".item.quantity_unit")])
      | .ok settled =>
          (settled.quantity,
            settled.warning.toList.map fun (code, content) => warning code content (path ++ ".quantity"))

def incrementMessages (path : String) (unit : QuantityUnit) (quantity : ℕ) : List Message :=
  if unit.increment > 1 ∧ quantity % unit.increment ≠ 0 then
    [warning "quantity_increment" ("This item is ordered in multiples of " ++ toString unit.increment ++ ".")
      (path ++ ".quantity")]
  else []

-- The whole units a number of steps takes from the stock.
def wholeUnits (unit : QuantityUnit) (quantity : ℕ) : ℕ := (quantity + 10 ^ unit.scale - 1) / 10 ^ unit.scale

def stockMessages (path : String) (item : CatalogItem) (quantity : ℕ) : List Message :=
  match item.inventory with
  | some stock =>
      if (wholeUnits item.quantityUnit quantity : ℤ) > stock then
        [error "out_of_stock" ("Only " ++ toString (max stock 0) ++ " in stock.") path]
      else []
  | none => []

def currencyMessages (path : String) (currency : Option String) (item : CatalogItem) : List Message :=
  match currency with
  | some code => if item.currency ≠ code then [error "item_unavailable" "Items must share one currency." path] else []
  | none => []

def linePath (index : ℕ) : String := "$.line_items[" ++ toString index ++ "]"

def nonEmpty (text : String) : Option String := if text = "" then none else some text

def render (itemId : String) (item : CatalogItem) : RenderedItem where
  id := itemId
  title := item.title
  price := item.price
  imageUrl := item.imageUrl.bind nonEmpty
  quantityUnit := if item.quantityUnit.isEach then none else some item.quantityUnit

-- A line with its id chosen, and the messages about it.
def priceLine (previousIds : List String) (found : String → Option CatalogItem) (currency : Option String)
    (index : ℕ) (id : String) (entry : ParsedItem) : Line × List Message :=
  let parentId := entry.parent.filter (previousIds.contains ·)
  match found entry.itemId with
  | none =>
      ({  id := id, quantity := entry.quantity, parentId := parentId
          item := ⟨entry.itemId, entry.itemId, 0, none, none⟩
          amount := 0
          storefrontVariant := none },
        [error "not_found" ("Item " ++ entry.itemId ++ " was not found.") (linePath index)])
  | some item =>
      let settled := settleQuantity strip (linePath index) item entry
      ({  id := id, quantity := settled.1, parentId := parentId
          item := render entry.itemId item
          amount := lineAmount item.price settled.1.val item.quantityUnit.scale
          storefrontVariant := item.storefrontVariantToken.bind nonEmpty },
        currencyMessages (linePath index) currency item ++ settled.2 ++
          incrementMessages (linePath index) item.quantityUnit settled.1.val ++
          stockMessages (linePath index) item settled.1.val)

structure Priced where
  items : List Line
  messages : List Message
  currency : Option String
  nextSeq : ℕ

def Priced.subtotal (priced : Priced) : ℤ := (priced.items.map Line.amount).sum

-- Line by line, with the ids used, the counter and the currency so far.
def priceLines (previousIds : List String) (found : String → Option CatalogItem) :
    ℕ → List String → ℕ → Option String → List ParsedItem → Priced
  | _, _, nextSeq, currency, [] => ⟨[], [], currency, nextSeq⟩
  | index, used, nextSeq, currency, entry :: rest =>
      let (id, nextSeq) := chooseId previousIds used nextSeq entry.lineId
      let (line, messages) := priceLine strip previousIds found currency index id entry
      let others := priceLines previousIds found (index + 1) (id :: used) nextSeq
        (currency.or ((found entry.itemId).map CatalogItem.currency)) rest
      { others with items := line :: others.items, messages := messages ++ others.messages }

def buildLineItems (catalog : ItemCatalog) (version : String) (rawItems : List Json) (previousIds : List String)
    (nextSeq : ℕ) : Except Refusal Priced := do
  let parsed ← parseItems version 0 rawItems
  return priceLines strip previousIds (catalog (parsed.map ParsedItem.itemId)) 0 [] nextSeq none parsed

end Lines

end AgenticOrg.Commerce.Ucp
