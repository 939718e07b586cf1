import AgenticOrg.Commerce.Ucp.Fulfillment

namespace AgenticOrg.Commerce.Ucp

open OrderedDict
open AgenticOrg.Workflows (Json Scalar)

section Buyers

def BUYER_FIELDS : List String := ["first_name", "last_name", "email", "phone_number"]

-- The parser of the consent map; a buyer without one has none.
structure ConsentParser where
  parse : String → Json → Except Refusal (Option Json)
  parse_null : ∀ version, parse version .null = .ok none

def buyerField (raw : Json) (key : String) : Option (String × String) :=
  (givenText (raw.get key)).map fun text => (key, clip 320 text)

-- The buyer's fields, and the consent apart from them.
def parseBuyer (consents : ConsentParser) (version : String) (raw : Json) :
    Except Refusal (Option (List (String × String)) × Option Json) :=
  match raw with
  | .scalar .null => .ok (none, none)
  | .obj fields => do
      let consent ← consents.parse version ((Json.obj fields).get "consent")
      return (some (BUYER_FIELDS.filterMap (buyerField (.obj fields))), consent)
  | _ => .error (.request "buyer must be an object")

end Buyers

section Contexts

structure Context where
  fields : List (String × String)
  eligibility : Option (List String)
  -- handler and types of each
  payment : Option (List (String × List String))

def CONTEXT_FIELDS : List String :=
  ["address_country", "address_region", "postal_code", "intent", "language", "currency"]

def isLower (c : Char) : Bool := 'a' ≤ c && c ≤ 'z'

-- `$` also matches before a line feed at the end.
def beforeLineFeed (text : String) : String :=
  if text.toList.getLast? = some '\n' then String.ofList text.toList.dropLast else text

-- `^[a-z][a-z0-9]*(?:\.[a-z][a-z0-9_]*)+$`
def isReverseDns (text : String) : Bool :=
  match (beforeLineFeed text).splitOn "." with
  | first :: second :: rest =>
      (first.toList.head?.any isLower && first.toList.all fun c => isLower c || isDigit c) &&
        (second :: rest).all fun label =>
          label.toList.head?.any isLower && label.toList.all fun c => isLower c || isDigit c || c = '_'
  | _ => false

def textOf? : Json → Option String
  | .scalar (.str text) => some text
  | _ => none

def contextField (raw : Json) (key : String) : Option (String × String) :=
  (textOf? (raw.get key)).map fun text => (key, clip 200 text)

-- What a loop over `value or []` goes through.
def iterated (value : Json) : Except Refusal (List Json) :=
  if !value.truthy then .ok []
  else
    match value with
    | .arr items => .ok items
    | .obj fields => .ok (fields.map fun field => .str field.1)
    | .scalar (.str text) => .ok (text.toList.map fun c => .str (String.singleton c))
    | .scalar _ => .error .typeError

def contextPayment (entry : Json) : Option (Except Refusal (String × List String)) :=
  if entry.isDict then
    (textOf? (entry.get "handler")).map fun handler => do
      let types ← iterated (entry.get "types")
      return (handler, types.filterMap textOf?)
  else none

def eligibilityOf : Json → Option (List String)
  | .arr items => some (((items.filterMap textOf?).filter isReverseDns).dedup.mergeSort (· ≤ ·))
  | _ => none

def contextPayments : Json → Except Refusal (Option (List (String × List String)))
  | .arr items => do
      let entries ← (items.filterMap contextPayment).mapM id
      return some entries
  | _ => .ok none

def parseContext (raw : Json) : Except Refusal (Option Context) :=
  match raw with
  | .scalar .null => .ok none
  | .obj fields => do
      let payment ← contextPayments ((Json.obj fields).get "payment")
      return some {
        fields := CONTEXT_FIELDS.filterMap (contextField (.obj fields))
        eligibility := eligibilityOf ((Json.obj fields).get "eligibility")
        payment := payment }
  | _ => .error (.request "context must be an object")

def parseAttribution (raw : Json) : Except Refusal (Option (List (String × String))) :=
  match raw with
  | .scalar .null => .ok none
  | .obj fields =>
      match fields.mapM fun field => (textOf? field.2).map fun text => (clip 120 field.1, clip 500 text) with
      | some entries => .ok (some (Dict.ofList (entries.take 50)).entries)
      | none => .error (.request "attribution must map strings to strings")
  | _ => .error (.request "attribution must map strings to strings")

-- Only the keys of the signals are kept, beside their digest.
def signalSummary (raw : Json) : Except Refusal (Option (List String)) :=
  match raw with
  | .scalar .null => .ok none
  | .obj fields => .ok (some ((fields.map Prod.fst).mergeSort (· ≤ ·)))
  | _ => .error (.request "signals must be an object")

end Contexts

section Payment

-- What is kept of an instrument: its credential only as its type.
structure Instrument where
  id : String
  handlerId : String
  type : String
  credentialType : Option Json
  display : List (String × Json)
  billingAddress : Option Json
  selected : Option Bool
  amount : Option ℕ

def DISPLAY_FIELDS : List String := ["brand", "last_digits", "expiry_month", "expiry_year", "description", "card_art"]

def instrumentName (index : ℕ) : String := "payment.instruments[" ++ toString index ++ "]"

def requireText (index : ℕ) (raw : Json) (name : String) : Except Refusal String :=
  (givenText (raw.get name)).elim (.error (.request (instrumentName index ++ "." ++ name ++ " is required"))) .ok

def credentialTypeOf (index : ℕ) (credential : Json) : Except Refusal (Option Json) :=
  match credential with
  | .scalar .null => .ok none
  | credential =>
      if credential.isDict && (credential.get "type").truthy then .ok (some (credential.get "type"))
      else .error (.request (instrumentName index ++ ".credential needs a type"))

def amountOf (index : ℕ) (amount : Json) : Except Refusal (Option ℕ) :=
  match amount with
  | .scalar .null => .ok none
  | .scalar (.int value) =>
      if 0 ≤ value then .ok (some value.toNat)
      else .error (.request (instrumentName index ++ ".amount must be a non-negative integer"))
  | _ => .error (.request (instrumentName index ++ ".amount must be a non-negative integer"))

def boolOf? : Json → Option Bool
  | .scalar (.bool value) => some value
  | _ => none

def parseInstrument (index : ℕ) (raw : Json) : Except Refusal Instrument := do
  require raw.isDict (instrumentName index ++ " must be an object")
  let id ← requireText index raw "id"
  let handlerId ← requireText index raw "handler_id"
  let type ← requireText index raw "type"
  let credentialType ← credentialTypeOf index (raw.get "credential")
  let amount ← amountOf index (raw.get "amount")
  return {
    id := clip 120 id
    handlerId := clip 120 handlerId
    type := clip 60 type
    credentialType := credentialType
    display := DISPLAY_FIELDS.filterMap fun key => ((raw.get "display").get? key).map fun value => (key, value)
    billingAddress := if (raw.get "billing_address").isDict then some (raw.get "billing_address") else none
    selected := boolOf? (raw.get "selected")
    amount := amount }

def parsePayment (raw : Json) : Except Refusal (List Instrument × Option String) :=
  match raw with
  | .scalar .null => .ok ([], none)
  | .obj fields => do
      let items ← match (Json.obj fields).get "instruments" with
        | .arr items => .ok items
        | value => if value.truthy then .error (.request "payment.instruments must be an array") else .ok []
      let instruments ← items.zipIdx.mapM fun entry => parseInstrument entry.2 entry.1
      return (instruments, givenText ((Json.obj fields).get "selected_term_id"))
  | _ => .error (.request "payment must be an object")

end Payment

section Evaluation

inductive Resource where
  | checkout
  | cart
  deriving DecidableEq

-- The release and the capabilities and extensions both sides speak.
structure Negotiated where
  version : String
  active : List String

def FULFILLMENT : String := "dev.ucp.shopping.fulfillment"

def BUYER_CONSENT : String := "dev.ucp.shopping.buyer_consent"

def PAYMENT_TERMS : String := "dev.ucp.common.payment.terms"

def Negotiated.has (negotiated : Negotiated) (name : String) : Bool := negotiated.active.contains name

-- The merchant as it is now, with its catalog.
structure Shop where
  catalog : ItemCatalog
  delivery : Delivery
  paymentTermIds : List String
  -- by release and handler id
  offersHandler : String → String → Bool

structure Totals where
  subtotal : ℤ
  fulfillment : Option ℤ
  total : ℤ

structure PaymentState where
  instruments : List Instrument
  selectedTermId : Option String

structure State where
  lineItems : List Line
  nextLineSeq : ℕ
  buyer : Option (List (String × String))
  consent : Option Json
  context : Option Context
  attribution : Option (List (String × String))
  signals : Option (List String)
  currency : Option String
  capabilities : List String
  ucpVersion : String
  fulfillment : Option Fulfillment
  payment : Option PaymentState
  totals : Totals
  messages : List Message

inductive Status where
  | incomplete
  | readyForComplete
  deriving DecidableEq

-- Without a `continue_url` nothing escalates.
def statusFor (messages : List Message) : Status := if hasErrors messages then .incomplete else .readyForComplete

def State.status (state : State) : Status := statusFor state.messages

def State.lineIds (state : State) : List String := state.lineItems.map Line.id

def State.methods (state : State) : List Method := (state.fulfillment.map Fulfillment.methods).getD []

def computeTotals (subtotal : ℤ) (fulfillmentAmount : Option ℤ) : Totals :=
  ⟨subtotal, fulfillmentAmount, subtotal + fulfillmentAmount.getD 0⟩

def validateInstruments (shop : Shop) (version : String) (instruments : List Instrument) : List Message :=
  instruments.zipIdx.filterMap fun entry =>
    if shop.offersHandler version entry.1.handlerId then none
    else some (error "payment_handler_unavailable" "This payment handler is not offered for this checkout."
      ("$." ++ instrumentName entry.2 ++ ".handler_id"))

def termMessages (shop : Shop) (term : Option String) : List Message :=
  match term with
  | some id =>
      if id ∈ shop.paymentTermIds then [] else [error "invalid_payment_term" "Unknown payment term." "$.payment"]
  | none => []

-- An option is selected somewhere, by an id that is not empty.
def hasSelection (methods : List Method) : Bool :=
  methods.any fun method => method.groups.any fun group => (group.selectedOptionId.bind nonEmpty).isSome

variable (py : Python) (consents : ConsentParser)

-- The fulfillment of a checkout, where the extension is active.
def evaluateFulfillment (resource : Resource) (shop : Shop) (negotiated : Negotiated) (body : Json)
    (previous : Option State) (priced : Priced) : Except Refusal (Option Fulfillment × List Message) := do
  if resource = .checkout ∧ negotiated.has FULFILLMENT = true then
    let (fulfillment, messages) ← buildFulfillment py shop.delivery (body.get "fulfillment")
      ((previous.map State.methods).getD []) (priced.items.map Line.id) priced.currency priced.subtotal
    return (some fulfillment, messages)
  else return (none, [])

-- The instruments of a checkout and the payment term chosen, where terms are negotiated.
def evaluatePayment (resource : Resource) (shop : Shop) (negotiated : Negotiated) (body : Json) :
    Except Refusal (Option PaymentState × List Message) := do
  if resource = .checkout then
    let (instruments, term) ← parsePayment (body.get "payment")
    let term := if negotiated.has PAYMENT_TERMS then term else none
    return (some ⟨instruments, term.filter shop.paymentTermIds.contains⟩,
      validateInstruments shop negotiated.version instruments ++ termMessages shop term)
  else return (none, [])

def shippingTotal (fulfillment : Option Fulfillment) : Option ℤ :=
  fulfillment.bind fun built =>
    if hasSelection built.methods then some (fulfillmentAmount built.methods) else none

def nextSeqOf (previous : Option State) : ℕ :=
  match previous with
  | some state => if state.nextLineSeq = 0 then 1 else state.nextLineSeq
  | none => 1

def previousIdsOf (previous : Option State) : List String := (previous.map State.lineIds).getD []

-- The full state of a checkout or cart from a create or update body.
def evaluate (resource : Resource) (shop : Shop) (negotiated : Negotiated) (body : Json) (previous : Option State) :
    Except Refusal State := do
  let rawItems ← requireList body "line_items"
  let priced ← buildLineItems py.strip shop.catalog negotiated.version rawItems
    (previousIdsOf previous) (nextSeqOf previous)
  let (buyer, consent) ← parseBuyer consents negotiated.version (body.get "buyer")
  let context ← parseContext (body.get "context")
  let attribution ← parseAttribution (body.get "attribution")
  let signals ← signalSummary (body.get "signals")
  let (fulfillment, deliveryMessages) ← evaluateFulfillment py resource shop negotiated body previous priced
  let (payment, paymentMessages) ← evaluatePayment resource shop negotiated body
  return {
    lineItems := priced.items
    nextLineSeq := priced.nextSeq
    buyer := buyer
    consent := if negotiated.has BUYER_CONSENT then consent else none
    context := context
    attribution := attribution
    signals := signals
    currency := priced.currency
    capabilities := negotiated.active.mergeSort (· ≤ ·)
    ucpVersion := negotiated.version
    fulfillment := fulfillment
    payment := payment
    totals := computeTotals priced.subtotal (shippingTotal fulfillment)
    messages := priced.messages ++ deliveryMessages ++ paymentMessages }

-- What a body that is evaluated was read as.
structure Reading where
  rawItems : List Json
  parsed : List ParsedItem
  buyer : Option (List (String × String))
  consent : Option Json
  context : Option Context
  attribution : Option (List (String × String))
  signals : Option (List String)
  fulfillment : Option Fulfillment
  deliveryMessages : List Message
  payment : Option PaymentState
  paymentMessages : List Message

variable (resource : Resource) (shop : Shop) (negotiated : Negotiated) (body : Json) (previous : Option State)

def pricedOf (parsed : List ParsedItem) : Priced :=
  priceLines py.strip (previousIdsOf previous) (shop.catalog (parsed.map ParsedItem.itemId)) 0 []
    (nextSeqOf previous) none parsed

structure Reading.Reads (reading : Reading) : Prop where
  rawItems : requireList body "line_items" = .ok reading.rawItems
  parsed : parseItems negotiated.version 0 reading.rawItems = .ok reading.parsed
  buyer : parseBuyer consents negotiated.version (body.get "buyer") = .ok (reading.buyer, reading.consent)
  context : parseContext (body.get "context") = .ok reading.context
  attribution : parseAttribution (body.get "attribution") = .ok reading.attribution
  signals : signalSummary (body.get "signals") = .ok reading.signals
  fulfillment : evaluateFulfillment py resource shop negotiated body previous
    (pricedOf py shop previous reading.parsed) = .ok (reading.fulfillment, reading.deliveryMessages)
  payment : evaluatePayment resource shop negotiated body = .ok (reading.payment, reading.paymentMessages)

def Reading.state (reading : Reading) : State :=
  let priced := pricedOf py shop previous reading.parsed
  { lineItems := priced.items
    nextLineSeq := priced.nextSeq
    buyer := reading.buyer
    consent := if negotiated.has BUYER_CONSENT then reading.consent else none
    context := reading.context
    attribution := reading.attribution
    signals := reading.signals
    currency := priced.currency
    capabilities := negotiated.active.mergeSort (· ≤ ·)
    ucpVersion := negotiated.version
    fulfillment := reading.fulfillment
    payment := reading.payment
    totals := computeTotals priced.subtotal (shippingTotal reading.fulfillment)
    messages := priced.messages ++ reading.deliveryMessages ++ reading.paymentMessages }

open Fallible in
theorem evaluate_ok (state : State) :
    evaluate py consents resource shop negotiated body previous = .ok state ↔
      ∃ reading : Reading, reading.Reads py consents resource shop negotiated body previous ∧
        reading.state py shop negotiated previous = state := by
  constructor
  · intro h
    unfold evaluate buildLineItems at h
    obtain ⟨rawItems, hraw, h⟩ := (bind_ok _ _ _).mp h
    obtain ⟨priced, hpriced, h⟩ := (bind_ok _ _ _).mp h
    obtain ⟨parsed, hparsed, hpriced⟩ := (bind_ok _ _ _).mp hpriced
    obtain rfl := (pure_ok _ _).mp hpriced
    obtain ⟨⟨buyer, consent⟩, hbuyer, h⟩ := (bind_ok _ _ _).mp h
    obtain ⟨context, hcontext, h⟩ := (bind_ok _ _ _).mp h
    obtain ⟨attribution, hattribution, h⟩ := (bind_ok _ _ _).mp h
    obtain ⟨signals, hsignals, h⟩ := (bind_ok _ _ _).mp h
    obtain ⟨⟨fulfillment, deliveryMessages⟩, hfulfillment, h⟩ := (bind_ok _ _ _).mp h
    obtain ⟨⟨payment, paymentMessages⟩, hpayment, h⟩ := (bind_ok _ _ _).mp h
    exact ⟨⟨rawItems, parsed, buyer, consent, context, attribution, signals, fulfillment, deliveryMessages, payment,
        paymentMessages⟩,
      ⟨hraw, hparsed, hbuyer, hcontext, hattribution, hsignals, hfulfillment, hpayment⟩, (pure_ok _ _).mp h⟩
  · rintro ⟨reading, hreads, rfl⟩
    have hfulfillment := hreads.fulfillment
    unfold pricedOf at hfulfillment
    unfold evaluate buildLineItems
    simp only [hreads.rawItems, hreads.parsed, ok_bind, hreads.buyer, hreads.context, hreads.attribution,
      hreads.signals, hreads.payment, pure_bind, hfulfillment]
    rfl

end Evaluation

section Rebuilding

def textFields (fields : List (String × String)) : List (String × Json) :=
  fields.map fun field => (field.1, .str field.2)

def Context.toJson (context : Context) : Json :=
  .obj (textFields context.fields ++
    (context.eligibility.map fun names => ("eligibility", Json.arr (names.map .str))).toList ++
    (context.payment.map fun entries => ("payment", Json.arr (entries.map fun entry =>
      .obj [("handler", .str entry.1), ("types", .arr (entry.2.map .str))]))).toList)

def rebuildLine (line : Line) : Json :=
  .obj ([("id", .str line.id), ("item", .obj [("id", .str line.item.id)]), ("quantity", .nat line.quantity.val)] ++
    ((line.parentId.bind nonEmpty).map fun parent => ("parent_id", Json.str parent)).toList)

def rebuildMethod (method : Method) : Json :=
  .obj [("id", .str method.id), ("type", .str method.type.name),
    ("line_item_ids", .arr (method.lineItemIds.map .str))]

-- The update body of a stored checkout: its items, buyer and context, and its methods by id and type.
def rebuildBody (state : State) : Json :=
  .obj ([("line_items", Json.arr (state.lineItems.map rebuildLine))] ++
    (state.buyer.map fun fields => ("buyer", Json.obj (textFields fields))).toList ++
    (state.context.map fun context => ("context", context.toJson)).toList ++
    if state.methods.isEmpty then []
    else [("fulfillment", .obj [("methods", .arr (state.methods.map rebuildMethod))])])

end Rebuilding

end AgenticOrg.Commerce.Ucp
