import AgenticOrg.Commerce.Handoff
import AgenticOrg.Lib.Dict

namespace AgenticOrg.Commerce.Handoff.Records

open OrderedDict

section Data

-- A value of a stored record. Of one that is no text, its truth and what `str` writes for it are all that is read.
inductive Value where
  | none
  | text (value : String)
  | other (truthy : Bool) (written : String)
  deriving DecidableEq

-- `str(value or "")`
def Value.orEmpty : Value → String
  | .none => ""
  | .text value => value
  | .other truthy written => if truthy then written else ""

abbrev Record := Dict String Value

def Record.get (record : Record) (field : String) : Value := (record.get? field).getD .none

structure PaymentState where
  handoff : Option Record
  continueUrl : Option Value
  messages : List Record
  refs : List String
  orders : Dict String Record

def PaymentState.empty : PaymentState := ⟨none, none, [], [], .empty⟩

def MODE_SHOPIFY_CART : String := "shopify_cart"
def MODE_PLURAL_HOSTED : String := "plural_hosted"
def MESSAGE_CODE : String := "payment_handoff"

def SHOPIFY_MESSAGE : String := "Open continue_url to pay for this order in the shop's own Shopify checkout."
def PLURAL_MESSAGE : String :=
  "Open continue_url to pay for this order on the shop's secure Plural payment page."

def LINK_FIELDS : List String :=
  ["continue_url", "issued_at", "expires_at", "provider_order_id", "decision_id", "credential_ref"]

end Data

section Operations

def recordOf (fields : List (String × Value)) : Record := Dict.ofList fields

def buyerMessage (mode : String) : Record :=
  recordOf [("type", .text "error"), ("code", .text MESSAGE_CODE),
    ("content", .text (if mode = MODE_SHOPIFY_CART then SHOPIFY_MESSAGE else PLURAL_MESSAGE)),
    ("severity", .text "requires_buyer_input"), ("path", .text "$.payment")]

def otherMessages (messages : List Record) : List Record :=
  messages.filter fun message => message.get? "code" ≠ some (.text MESSAGE_CODE)

def payableRecord (found : Option Record) : Bool := found.any fun record => record.get? "status" = some (.text "issued")

-- The fields of a link that a record has.
def linkFields (source : Record) : List (String × Value) :=
  LINK_FIELDS.filterMap fun field => (source.get? field).map fun value => (field, value)

def linkOf (handoff : Record) : Record := (recordOf (linkFields handoff)).insert "status" (.text "issued")

def rememberLink (state : PaymentState) (handoff : Record) : PaymentState :=
  let reference := (handoff.get "reference").orEmpty
  if reference ∈ state.refs then
    { state with
      orders := state.orders.insert reference
        (((state.orders.get? reference).getD .empty).merge (linkOf handoff)) }
  else state

def setReferenceStatus (state : PaymentState) (reference status : String) : PaymentState :=
  match state.orders.get? reference with
  | some found => { state with orders := state.orders.insert reference (found.insert "status" (.text status)) }
  | none => state

def clearHandoff (state : PaymentState) (status : String) : PaymentState :=
  { state with
    messages := otherMessages state.messages
    continueUrl := none
    handoff := state.handoff.map fun handoff => handoff.insert "status" (.text status) }

-- The reference of the current hand-off: an empty one is none.
def PaymentState.current (state : PaymentState) : Option String :=
  (state.handoff.map fun handoff => (handoff.get "reference").orEmpty).filter (· ≠ "")

-- A link that is brought back.
def handoffOf (reference : String) (found : Record) : Record :=
  (((recordOf [("mode", .text MODE_PLURAL_HOSTED)]).merge (recordOf (linkFields found))).insert
    "status" (.text "issued")).insert "reference" (.text reference)

def retireFailed (state : PaymentState) : PaymentState × String :=
  let marked :=
    match state.current with
    | some reference => setReferenceStatus state reference "failed"
    | none => state
  let cleared := clearHandoff marked "failed"
  match (cleared.refs.filter fun reference => payableRecord (cleared.orders.get? reference)).getLast? with
  | none => (cleared, "ready_for_complete")
  | some reference =>
      let found := (cleared.orders.get? reference).getD .empty
      ({ cleared with
          handoff := some (handoffOf reference found)
          continueUrl := some (found.get "continue_url")
          messages := cleared.messages ++ [buyerMessage MODE_PLURAL_HOSTED] }, "requires_escalation")

def issue (iso : ℤ → String) (state : PaymentState) (mode continueUrl decisionId : String) (now expiresAt : ℤ)
    (extra : Record) : PaymentState :=
  let current := state.handoff.getD .empty
  let kept := if current.get? "decision_id" = some (.text decisionId) then current else .empty
  { state with
    handoff := some ((kept.merge extra).merge (recordOf [("mode", .text mode), ("status", .text "issued"),
      ("decision_id", .text decisionId), ("continue_url", .text continueUrl), ("issued_at", .text (iso now)),
      ("expires_at", .text (iso expiresAt))]))
    continueUrl := some (.text continueUrl)
    messages := otherMessages state.messages ++ [buyerMessage mode] }

-- The references that may be dropped: of the earlier ones, those that cannot be paid.
def droppable (refs : List String) (orders : Dict String Record) : List String :=
  refs.dropLast.filter fun reference => !payableRecord (orders.get? reference)

def rememberReference (state : PaymentState) (reference : String) (given : Record) : PaymentState :=
  let refs := state.refs.filter (· ≠ reference) ++ [reference]
  let orders := state.orders.insert reference (((state.orders.get? reference).getD .empty).merge given)
  let stale := (droppable refs orders).take (refs.length - MAX_REFERENCES)
  { state with
    refs := stale.foldl List.erase refs
    orders := stale.foldl Dict.erase orders }

inductive HandoffOperation where
  | issue (mode continueUrl decisionId : String) (now expiresAt : ℤ) (extra : Record)
  | rememberReference (reference : String) (given : Record)
  | rememberLink (handoff : Record)
  | setReferenceStatus (reference status : String)
  | retireFailed
  | clearHandoff (status : String)

def PaymentState.step (iso : ℤ → String) (state : PaymentState) : HandoffOperation → PaymentState
  | .issue mode continueUrl decisionId now expiresAt extra =>
      Records.issue iso state mode continueUrl decisionId now expiresAt extra
  | .rememberReference reference given => Records.rememberReference state reference given
  | .rememberLink handoff => Records.rememberLink state handoff
  | .setReferenceStatus reference status => Records.setReferenceStatus state reference status
  | .retireFailed => (Records.retireFailed state).1
  | .clearHandoff status => Records.clearHandoff state status

def PaymentState.run (iso : ℤ → String) (operations : List HandoffOperation) : PaymentState :=
  operations.foldl (PaymentState.step iso) .empty

end Operations

end AgenticOrg.Commerce.Handoff.Records
