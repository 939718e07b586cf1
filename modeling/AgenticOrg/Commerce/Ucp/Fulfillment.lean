import AgenticOrg.Commerce.Ucp.LineItems

namespace AgenticOrg.Commerce.Ucp

open OrderedDict
open AgenticOrg.Workflows (Json Scalar)

section Texts

-- Python's text functions: `str` of a value, `strip`, `upper`, and the comparison
-- keys of a region and of a postal code, which rest on the Unicode tables.
structure Python where
  str : Json → String
  strip : String → String
  upper : String → String
  regionKey : String → String
  compactPostalCode : String → String
  str_text : ∀ text, str (.str text) = text
  str_truthy : ∀ value, value.truthy = true → str value ≠ ""

def clip (length : ℕ) (text : String) : String := String.ofList (text.toList.take length)

end Texts

section DeliveryArea

def SHOWN_PREFIXES : ℕ := 8

def isLetter (c : Char) : Bool := 'A' ≤ c && c ≤ 'Z'

def isDigit (c : Char) : Bool := '0' ≤ c && c ≤ '9'

-- `^[A-Z]{1,2}[0-9][A-Z0-9]?$`
def isDistrict (code : List Char) : Bool :=
  [1, 2].contains (code.takeWhile isLetter).length &&
    match code.dropWhile isLetter with
    | [digit] => isDigit digit
    | [digit, last] => isDigit digit && (isDigit last || isLetter last)
    | _ => false

-- The outward code of a full UK postcode, or of an outward code given alone.
def outwardOf (code : List Char) : Option (List Char) :=
  match code.reverse with
  | c :: b :: a :: outward =>
      if isDigit a && isLetter b && isLetter c && isDistrict outward.reverse then some outward.reverse
      else if isDistrict code then some code else none
  | _ => if isDistrict code then some code else none

def matchesPrefix (code start : List Char) : Bool :=
  start.isPrefixOf code &&
    (!isDistrict start ||
      match outwardOf code with
      | none => true
      | some outward => start.length ≤ outward.length && !((outward.drop start.length).head?.any isDigit))

def inArea (py : Python) (postalCode : String) (prefixes : List String) : Bool :=
  prefixes.isEmpty ||
    (py.compactPostalCode postalCode ≠ "" &&
      prefixes.any fun start => matchesPrefix (py.compactPostalCode postalCode).toList start.toList)

def joinTexts (separator : String) (texts : List String) : String := separator.intercalate texts

def describeArea (prefixes : List String) : String :=
  let shown := prefixes.take SHOWN_PREFIXES
  let rest := prefixes.length - shown.length
  "postal codes starting with " ++
    if rest ≠ 0 then joinTexts ", " shown ++ " and " ++ toString rest ++ " more"
    else if shown.length > 1 then joinTexts ", " shown.dropLast ++ " or " ++ (shown.getLast?).getD ""
    else shown.head?.getD ""

def outsideAreaMessage (py : Python) (postalCode : String) (prefixes : List String) : String :=
  "This shop delivers only to " ++ describeArea prefixes ++ "; " ++
    clip 12 (py.compactPostalCode postalCode) ++ " is outside it."

def postalCodeNeededMessage (prefixes : List String) : String :=
  "This shop delivers only to " ++ describeArea prefixes ++
    ". Add the postal code to the delivery address (postal_code)."

end DeliveryArea

section Rates

structure DeliveryRate where
  id : String
  title : String
  description : Option String
  amount : ℤ
  currency : String
  countries : List String
  restOfWorld : Bool
  -- country, code and name of each
  provinces : List (String × String × String)

variable (py : Python)

def DeliveryRate.needsRegion (rate : DeliveryRate) (country : Option String) : Bool :=
  py.upper (country.getD "") ≠ "" && rate.provinces.any fun entry => entry.1 = py.upper (country.getD "")

def codeOnly (region : String) : String :=
  if region.toList.contains '-' then py.regionKey (String.ofList (region.toList.dropWhile (· ≠ '-')).tail)
  else py.regionKey region

def DeliveryRate.serves (rate : DeliveryRate) (country region : Option String) : Bool :=
  rate.restOfWorld ||
    match country with
    | none => false
    | some code =>
        rate.countries.contains (py.upper code) &&
          (!rate.needsRegion py country ||
            (py.regionKey (region.getD "") ≠ "" &&
              rate.provinces.any fun entry =>
                entry.1 = py.upper code &&
                  (py.regionKey (region.getD "") = py.regionKey entry.2.1 ||
                    py.regionKey (region.getD "") = py.regionKey entry.2.2 ||
                    codeOnly py (region.getD "") = py.regionKey entry.2.1)))

end Rates

section State

inductive MethodType where
  | shipping
  | pickup
  deriving DecidableEq

def MethodType.name : MethodType → String
  | shipping => "shipping"
  | pickup => "pickup"

def METHOD_TYPES : List MethodType := [.shipping, .pickup]

def MethodType.ofName? (name : String) : Option MethodType := METHOD_TYPES.find? fun type => type.name = name

structure Destination where
  id : String
  kind : String
  name : Option String
  address : Dict String String

structure FulfillmentOption where
  id : String
  title : String
  amount : ℤ
  description : Option String

structure Group where
  id : String
  lineItemIds : List String
  options : List FulfillmentOption
  selectedOptionId : Option String

structure Method where
  id : String
  type : MethodType
  lineItemIds : List String
  destinations : List Destination
  selectedDestinationId : Option String
  groups : List Group

structure Fulfillment where
  methods : List Method
  -- type and line items of each
  availableMethods : List (MethodType × List String)

structure FulfillmentSettings where
  shipping : Bool
  pickup : Bool
  multiDestination : List String
  methodCombinations : List (List String)
  freeShippingMinSubtotal : Option ℤ
  postalCodePrefixes : List String

-- What the shop offers: its settings, its locations and the rates of its delivery profiles.
structure Delivery where
  settings : FulfillmentSettings
  pickupLocations : List Destination
  rates : List DeliveryRate

end State

section Destinations

variable (py : Python)

def ADDRESS_FIELDS : List String :=
  ["extended_address", "street_address", "address_locality", "address_region", "address_country", "postal_code",
    "first_name", "last_name", "phone_number"]

def aliasOf (key : String) : String :=
  if key = "locality" then "address_locality"
  else if key = "region" then "address_region"
  else if key = "country" then "address_country"
  else key

-- A text or an integer, a boolean among these.
def isTextOrInt : Json → Bool
  | .scalar (.str _) => true
  | .scalar (.int _) => true
  | .scalar (.bool _) => true
  | _ => false

def fieldsOf : Json → List (String × Json)
  | .obj fields => fields
  | _ => []

def addField (out : Dict String String) (field : String × Json) : Dict String String :=
  if aliasOf field.1 ∈ ADDRESS_FIELDS ∧ isTextOrInt field.2 = true ∧ py.strip (py.str field.2) ≠ "" then
    out.insert (aliasOf field.1) (clip 200 (py.strip (py.str field.2)))
  else out

def address (raw : Json) : Dict String String :=
  let out := (fieldsOf raw).foldl (addField py) .empty
  match out.get? "address_country" with
  | some country => out.insert "address_country" (py.upper country)
  | none => out

def shippingDestination (position : ℕ) (raw : Json) : Except Refusal Destination := do
  require raw.isDict "each destination must be an object"
  require (((address py raw).get? "address_country").getD "" ≠ "") "a shipping destination needs address_country"
  let id := if (raw.get "id").truthy then py.str (raw.get "id") else "dest_" ++ toString (position + 1)
  return ⟨clip 80 id, "shipping_address", none, address py raw⟩

def shippingDestinations (requested : Json) (prior : List Destination) : Except Refusal (List Destination) :=
  match requested with
  | .scalar .null => .ok prior
  | .arr items => items.zipIdx.mapM fun entry => shippingDestination py entry.2 entry.1
  | _ => .error (.request "destinations must be an array")

def pickupDestination (location : Destination) : Destination := { location with kind := "business_location" }

end Destinations

section Options

variable (py : Python)

def areaProblem (prefixes : List String) (destination : Destination) (path : String) : Option Message :=
  if prefixes.isEmpty then none
  else
    match (destination.address.get? "postal_code").bind nonEmpty with
    | none => some (error "missing" (postalCodeNeededMessage prefixes) (path ++ ".destinations"))
    | some postalCode =>
        if inArea py postalCode prefixes then none
        else some (error "address_undeliverable" (outsideAreaMessage py postalCode prefixes)
          (path ++ ".selected_destination_id"))

-- No currency, or this one.
def inCurrency (currency : Option String) (rate : DeliveryRate) : Bool :=
  (currency.bind nonEmpty).all fun code => rate.currency = code

def noOptionMessage (rates : List DeliveryRate) (destination : Destination) (currency : Option String)
    (path : String) : Message :=
  if ((destination.address.get? "address_region").bind nonEmpty).isNone ∧
      rates.any (fun rate =>
        rate.needsRegion py (destination.address.get? "address_country") && inCurrency currency rate) then
    error "missing"
      "This shop delivers only to some states or provinces. Add the state (address_region) to the address."
      (path ++ ".destinations")
  else
    error "address_undeliverable" "No shipping option reaches this destination." (path ++ ".selected_destination_id")

def shippingOptions (rates : List DeliveryRate) (destination : Destination) (currency : Option String)
    (subtotal : ℤ) (freeThreshold : Option ℤ) : List FulfillmentOption :=
  let free := freeThreshold.any fun threshold => subtotal ≥ threshold
  (rates.filter fun rate =>
    rate.serves py (destination.address.get? "address_country") (destination.address.get? "address_region") &&
      inCurrency currency rate).map fun rate =>
    { id := rate.id
      title := rate.title
      amount := if free then 0 else rate.amount
      description := if free then some "Free shipping on this order." else rate.description.bind nonEmpty }

def pickupOption (destination : Destination) : FulfillmentOption :=
  ⟨"pickup-" ++ destination.id, "Pick up at " ++ destination.name.getD "", 0, none⟩

-- The options of a method at its destination, or why there are none.
def optionsAt (shop : Delivery) (type : MethodType) (destination : Destination) (currency : Option String)
    (subtotal : ℤ) (path : String) : List FulfillmentOption × List Message :=
  match type with
  | .pickup => ([pickupOption destination], [])
  | .shipping =>
      match areaProblem py shop.settings.postalCodePrefixes destination path with
      | some problem => ([], [problem])
      | none =>
          let options := shippingOptions py shop.rates destination currency subtotal
            shop.settings.freeShippingMinSubtotal
          (options, if options.isEmpty then [noOptionMessage py shop.rates destination currency path] else [])

end Options

section Methods

variable (py : Python) (shop : Delivery)

def matchPrevious (previous : List Method) (raw : Json) (index : ℕ) : Option Method :=
  let byId : Option Method := match raw.get "id" with
    | .scalar (.str id) => if id = "" then none else previous.find? fun method => method.id = id
    | _ => none
  byId.or ((previous[index]?).filter fun method =>
    !(raw.get "type").truthy ||
      match raw.get "type" with
      | .scalar (.str name) => method.type.name = name
      | _ => false)

def firstGroup : Json → Json
  | .arr (.obj fields :: _) => .obj fields
  | _ => .null

def optionalText : Option String → Json
  | some text => .str text
  | none => .null

-- `raw.get(key, prior)`: a key that is there counts, also with `None`.
def chosen (raw : Json) (key : String) (prior : Option String) : Json := (raw.get? key).getD (optionalText prior)

-- The id of a set a value is; what cannot be hashed cannot be looked for.
def idIn (ids : List String) : Json → Except Refusal (Option String)
  | .scalar (.str text) => .ok (if text ∈ ids then some text else none)
  | .scalar _ => .ok none
  | _ => .error .typeError

def textsOf : Json → Option (List String)
  | .arr items => items.mapM fun item => match item with
      | .scalar (.str text) => some text
      | _ => none
  | _ => none

def methodPath (index : ℕ) : String := "$.fulfillment.methods[" ++ toString index ++ "]"

def allowed : List MethodType := METHOD_TYPES.filter fun type => match type with
  | .shipping => shop.settings.shipping
  | .pickup => shop.settings.pickup

def methodType (raw : Json) (prior : Option Method) : Option MethodType :=
  MethodType.ofName? (if (raw.get "type").truthy then py.str (raw.get "type") else (prior.map (·.type.name)).getD "")

def methodId (raw : Json) (prior : Option Method) (index : ℕ) : String :=
  ((prior.bind fun method => nonEmpty method.id).or
    (if (raw.get "id").truthy then some (py.str (raw.get "id")) else none)).getD ("fm_" ++ toString (index + 1))

def methodLineItems (raw : Json) (prior : Option Method) (lineItemIds : List String) :
    Except Refusal (List String) :=
  let requested := match raw.get "line_item_ids" with
    | .scalar .null => some (match (prior.map Method.lineItemIds).getD [] with
        | [] => lineItemIds
        | ids => ids)
    | value => textsOf value
  match requested with
  | none => .error (.request "line_item_ids must be an array of strings")
  | some ids =>
      .ok (match ids.filter (· ∈ lineItemIds) with
        | [] => lineItemIds
        | kept => kept)

def methodDestinations (raw : Json) (prior : Option Method) (type : MethodType) :
    Except Refusal (List Destination) :=
  match type with
  | .pickup => .ok (shop.pickupLocations.map pickupDestination)
  | .shipping => shippingDestinations py (raw.get "destinations") ((prior.map Method.destinations).getD [])

def selectDestination (path : String) (destinations : List Destination) (value : Json) :
    Except Refusal (Option String × List Message) :=
  match value with
  | .scalar .null => .ok (none, [])
  | value => do
      let selected ← idIn (destinations.map Destination.id) value
      return (selected, if selected.isSome then [] else
        [error "invalid_destination" "The selected destination is not one of the destinations."
          (path ++ ".selected_destination_id")])

def selectOption (path : String) (options : List FulfillmentOption) (value : Json) :
    Except Refusal (Option String × List Message) := do
  let selected ← idIn (options.map FulfillmentOption.id) value
  return (selected,
    if selected.isSome || options.isEmpty then []
    else
      match value with
      | .scalar .null => [error "missing" "Choose a fulfillment option." (path ++ ".groups[0].selected_option_id")]
      | _ => [error "invalid_option" "The selected fulfillment option is not available."
          (path ++ ".groups[0].selected_option_id")])

-- The group of a method: its options at the selected destination and the one selected.
def buildGroup (raw : Json) (prior : Option Method) (index : ℕ) (type : MethodType) (ids : List String)
    (destinations : List Destination) (selected : Option String) (currency : Option String) (subtotal : ℤ) :
    Except Refusal (Group × List Message) :=
  match selected.bind fun id => destinations.find? fun destination => destination.id = id with
  | none =>
      .ok (⟨"fg_" ++ toString (index + 1), ids, [], none⟩,
        [error "missing" "Choose a fulfillment destination." (methodPath index ++ ".selected_destination_id")])
  | some destination => do
      let (options, problems) := optionsAt py shop type destination currency subtotal (methodPath index)
      let priorGroup := prior.bind fun method => method.groups.head?
      let wanted := chosen (firstGroup (raw.get "groups")) "selected_option_id"
        (priorGroup.bind Group.selectedOptionId)
      let (option, messages) ← selectOption (methodPath index) options wanted
      return (⟨"fg_" ++ toString (index + 1), ids, options, option⟩, problems ++ messages)

def buildMethod (previous : List Method) (lineItemIds : List String) (currency : Option String) (subtotal : ℤ)
    (index : ℕ) (raw : Json) : Except Refusal (Method × List Message) := do
  require raw.isDict "each fulfillment method must be an object"
  let prior := matchPrevious previous raw index
  let type ← (methodType py raw prior).elim
    (.error (.request ("fulfillment method " ++ toString index ++ " needs a type of shipping or pickup"))) .ok
  let offered := if type ∈ allowed shop then []
    else [error "unsupported_fulfillment_method" (type.name ++ " is not offered.") (methodPath index ++ ".type")]
  let ids ← methodLineItems raw prior lineItemIds
  let destinations ← methodDestinations py shop raw prior type
  let (selected, unknown) ← selectDestination (methodPath index) destinations
    (chosen raw "selected_destination_id" (prior.bind Method.selectedDestinationId))
  let (group, problems) ← buildGroup py shop raw prior index type ids destinations selected currency subtotal
  return (⟨methodId py raw prior index, type, ids, destinations, selected, [group]⟩, offered ++ unknown ++ problems)

def buildMethods (previous : List Method) (lineItemIds : List String) (currency : Option String) (subtotal : ℤ) :
    ℕ → List Json → Except Refusal (List Method × List Message)
  | _, [] => .ok ([], [])
  | index, raw :: rest => do
      let (method, messages) ← buildMethod py shop previous lineItemIds currency subtotal index raw
      let (methods, others) ← buildMethods previous lineItemIds currency subtotal (index + 1) rest
      return (method :: methods, messages ++ others)

def combinationMessages (methods : List Method) : List Message :=
  let types := (methods.map Method.type).eraseDups
  let repeated := types.filter fun type =>
    (methods.map Method.type).count type > 1 && !shop.settings.multiDestination.contains type.name
  (repeated.map fun type =>
    error "multi_destination_unsupported" ("Only one " ++ type.name ++ " destination is supported.")
      "$.fulfillment.methods") ++
    if types.length > 1 ∧ !shop.settings.methodCombinations.any (fun combo =>
        combo.all (types.map MethodType.name).contains && (types.map MethodType.name).all combo.contains) then
      [error "method_combination_unsupported" "These fulfillment methods cannot be combined."
        "$.fulfillment.methods"]
    else []

def coverageMessages (lineItemIds : List String) (methods : List Method) : List Message :=
  let covered := methods.flatMap Method.lineItemIds
  (if !lineItemIds.all covered.contains || methods.isEmpty then
    [error "missing" "Every line item needs a fulfillment method." "$.fulfillment"] else []) ++
    if ¬covered.Nodup then [error "invalid_fulfillment" "A line item is in more than one method." "$.fulfillment"]
    else []

-- The amount of the option a group selects.
def Group.amount (group : Group) : ℤ :=
  ((group.selectedOptionId.bind fun id => group.options.find? fun option => option.id = id).map FulfillmentOption.amount).getD 0

def fulfillmentAmount (methods : List Method) : ℤ := ((methods.flatMap Method.groups).map Group.amount).sum

def methodRequests (request : Json) : Option (List Json) :=
  match (request.get? "methods").getD (.arr []) with
  | .arr methods => if request.isDict then some methods else none
  | _ => none

def buildFulfillment (request : Json) (previous : List Method) (lineItemIds : List String)
    (currency : Option String) (subtotal : ℤ) : Except Refusal (Fulfillment × List Message) :=
  let available := (allowed shop).map fun type => (type, lineItemIds)
  match request with
  | .scalar .null =>
      .ok (⟨[], available⟩,
        if lineItemIds.isEmpty then [] else [error "missing" "Choose how the order is fulfilled." "$.fulfillment"])
  | request =>
      match methodRequests request with
      | none => .error (.request "fulfillment.methods must be an array")
      | some raws => do
          let (methods, messages) ← buildMethods py shop previous lineItemIds currency subtotal 0 raws
          return (⟨methods, available⟩,
            messages ++ combinationMessages shop methods ++ coverageMessages lineItemIds methods)

end Methods

end AgenticOrg.Commerce.Ucp
