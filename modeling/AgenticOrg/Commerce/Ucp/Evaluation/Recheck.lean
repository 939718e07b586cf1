import AgenticOrg.Commerce.Ucp.Evaluation.Amounts
import AgenticOrg.Commerce.Ucp.Evaluation.Methods

namespace AgenticOrg.Commerce.Ucp

open Fallible
open AgenticOrg.Workflows (Json Scalar)

section Lines

theorem parseItems_length (version : String) (raws : List Json) (start : ℕ) (parsed : List ParsedItem)
    (h : parseItems version start raws = .ok parsed) : parsed.length = raws.length := by
  induction raws generalizing start parsed with
  | nil =>
      cases h
      rfl
  | cons raw rest ih =>
      obtain ⟨first, _, h⟩ := (bind_ok _ _ _).mp h
      obtain ⟨others, ho, h⟩ := (bind_ok _ _ _).mp h
      obtain rfl := (pure_ok _ _).mp h
      rw [List.length_cons, List.length_cons, ih (start + 1) others ho]

theorem requireList_length (body : Json) (name : String) (items : List Json) (h : requireList body name = .ok items) :
    items ≠ [] ∧ items.length ≤ MAX_LINE_ITEMS := by
  unfold requireList at h
  split at h
  · split at h
    · cases h
    · cases h
      exact ⟨List.cons_ne_nil _ _, by omega⟩
  · cases h

theorem requireList_of (body : Json) (name : String) (items : List Json) (h : body.get name = .arr items)
    (hne : items ≠ []) (hlength : items.length ≤ MAX_LINE_ITEMS) : requireList body name = .ok items := by
  obtain ⟨first, rest, rfl⟩ := List.exists_cons_of_ne_nil hne
  unfold requireList
  rw [h]
  exact if_neg (by omega)

theorem priceLine_parent (strip : String → String) (previousIds : List String) (found : String → Option CatalogItem)
    (currency : Option String) (index : ℕ) (id : String) (entry : ParsedItem) :
    (priceLine strip previousIds found currency index id entry).1.parentId =
      entry.parent.filter (previousIds.contains ·) := by
  unfold priceLine
  cases found entry.itemId <;> rfl

theorem lineId_ne (k : ℕ) : lineId k ≠ "" := by
  intro h
  have hlength := congrArg String.toList h
  rw [lineId, String.toList_append] at hlength
  cases hlength

-- Parents within the ids are kept, and no others.
theorem map_within (ids : List String) (lines : List Line) :
    lines.map (Line.within ids) = lines ↔
      ∀ line ∈ lines, ∀ parent, line.parentId = some parent → parent ∈ ids := by
  have hone : ∀ line : Line, line.within ids = line ↔ ∀ parent, line.parentId = some parent → parent ∈ ids := by
    intro line
    constructor
    · intro h parent hp
      have hparent : line.parentId.filter (ids.contains ·) = line.parentId := congrArg Line.parentId h
      rw [hp] at hparent
      exact List.contains_iff_mem.mp (Option.filter_eq_some_iff.mp hparent).2
    · intro h
      have hfilter : line.parentId.filter (ids.contains ·) = line.parentId := by
        cases hp : line.parentId with
        | none => rfl
        | some parent =>
            rw [Option.filter_some, List.contains_iff_mem.mpr (h parent hp)]
            rfl
      rw [Line.within, hfilter]
  induction lines with
  | nil => simp
  | cons line rest ih =>
      rw [List.map_cons, List.cons.injEq, List.forall_mem_cons]
      exact and_congr (hone line) ih

end Lines

section Delivery

variable (py : Python) (shop : Delivery) (lineItemIds : List String) (currency : Option String) (subtotal : ℤ)

theorem buildFulfillment_clean (request : Json) (previous : List Method) (built : Fulfillment)
    (messages : List Message)
    (h : buildFulfillment py shop request previous lineItemIds currency subtotal = .ok (built, messages))
    (hclean : hasErrors messages = false) (hids : lineItemIds ≠ []) :
    (∃ raws said, buildMethods py shop previous lineItemIds currency subtotal 0 raws = .ok (built.methods, said) ∧
      hasErrors said = false) ∧
    hasErrors (combinationMessages shop built.methods) = false ∧
    hasErrors (coverageMessages lineItemIds built.methods) = false ∧
    built.methods ≠ [] ∧ built.availableMethods = (allowed shop).map fun type => (type, lineItemIds) := by
  unfold buildFulfillment at h
  dsimp only at h
  split at h
  · cases h
    have hempty : lineItemIds.isEmpty = false := by
      cases lineItemIds with
      | nil => exact absurd rfl hids
      | cons id rest => rfl
    rw [hempty] at hclean
    cases hclean
  · split at h
    · cases h
    · rename_i raws _
      obtain ⟨⟨methods, said⟩, hmethods, h⟩ := (bind_ok _ _ _).mp h
      obtain ⟨rfl, rfl⟩ := Prod.mk.inj ((pure_ok _ _).mp h)
      simp only [hasErrors_append_eq_false] at hclean
      obtain ⟨⟨hsaid, hcombination⟩, hcoverage⟩ := hclean
      refine ⟨⟨raws, said, hmethods, hsaid⟩, hcombination, hcoverage, fun hnil => ?_, rfl⟩
      dsimp only at hnil
      subst hnil
      simp only [coverageMessages, List.isEmpty_nil, Bool.or_true, if_true] at hcoverage
      cases hcoverage

theorem buildFulfillment_again (request : Json) (previous : List Method) (built : Fulfillment)
    (messages : List Message)
    (h : buildFulfillment py shop request previous lineItemIds currency subtotal = .ok (built, messages))
    (hclean : hasErrors messages = false) (hids : lineItemIds ≠ []) :
    ∃ again said,
      buildFulfillment py shop (rebuiltFulfillment built.methods) built.methods lineItemIds currency subtotal =
        .ok (again, said) ∧
      (again = built ↔ ∀ method ∈ built.methods, ∀ first,
        (built.methods.find? fun other => other.id = method.id) = some first → SameChoices first method) ∧
      (again = built → hasErrors said = false) := by
  obtain ⟨⟨raws, saidFirst, hbuilt, hsaidFirst⟩, hcombination, hcoverage, hne, havailable⟩ :=
    buildFulfillment_clean py shop lineItemIds currency subtotal request previous built messages h hclean hids
  have hsettled := buildMethods_settled py shop lineItemIds currency subtotal previous raws 0 _ _ hbuilt hsaidFirst
  have hfirst : ∀ method ∈ built.methods,
      ∃ first, (built.methods.find? fun other => other.id = method.id) = some first := by
    intro method hm
    have hsome : (built.methods.find? fun other => other.id = method.id).isSome = true :=
      List.find?_isSome.mpr ⟨method, hm, decide_eq_true rfl⟩
    exact Option.isSome_iff_exists.mp hsome
  obtain ⟨methods, said, hmethods, hiff, hsaid⟩ := buildMethods_again py shop lineItemIds currency subtotal
    built.methods built.methods 0 hsettled hfirst
  have hrequest : rebuiltFulfillment built.methods = .obj [("methods", .arr (built.methods.map rebuildMethod))] := by
    obtain ⟨method, rest, heq⟩ := List.exists_cons_of_ne_nil hne
    rw [heq]
    rfl
  refine ⟨⟨methods, built.availableMethods⟩,
    said ++ combinationMessages shop methods ++ coverageMessages lineItemIds methods, ?_, ?_, fun heq => ?_⟩
  · rw [hrequest]
    show (buildMethods py shop built.methods lineItemIds currency subtotal 0 (built.methods.map rebuildMethod) >>= _) =
      _
    rw [hmethods, havailable]
    rfl
  · rw [← hiff]
    exact ⟨fun heq => congrArg Fulfillment.methods heq, fun heq => by rw [heq]⟩
  · have hmethods : methods = built.methods := congrArg Fulfillment.methods heq
    simp only [hasErrors_append_eq_false]
    rw [hmethods]
    exact ⟨⟨hsaid hmethods, hcombination⟩, hcoverage⟩

end Delivery

section Recheck

-- Every parent is a line of the state, and every method has the choices of the first one with its id.
def Reproducible (state : State) : Prop :=
  (∀ line ∈ state.lineItems, ∀ parent, line.parentId = some parent → parent ∈ state.lineIds) ∧
    ∀ method ∈ state.methods, ∀ first,
      (state.methods.find? fun other => other.id = method.id) = some first → SameChoices first method

structure Unchanged (state fresh : State) : Prop where
  lineItems : fresh.lineItems = state.lineItems
  fulfillment : fresh.fulfillment = state.fulfillment
  totals : fresh.totals = state.totals
  messages : hasErrors fresh.messages = false

variable (py : Python) (consents : ConsentParser) (shop : Shop) (negotiated : Negotiated)

theorem evaluateFulfillment_again (body : Json) (previous : Option State) (priced again : Priced)
    (fulfillment : Option Fulfillment) (messages : List Message) (state : State)
    (hstate : state.fulfillment = fulfillment)
    (h : evaluateFulfillment py .checkout shop negotiated body previous priced = .ok (fulfillment, messages))
    (hclean : hasErrors messages = false) (hids : priced.ids ≠ []) (hsame : again.ids = priced.ids)
    (hcurrency : again.currency = priced.currency) (hsubtotal : again.subtotal = priced.subtotal) :
    ∃ fresh said,
      evaluateFulfillment py .checkout shop negotiated (rebuildBody state) (some state) again = .ok (fresh, said) ∧
      (fresh = fulfillment ↔ ∀ method ∈ state.methods, ∀ first,
        (state.methods.find? fun other => other.id = method.id) = some first → SameChoices first method) ∧
      (fresh = fulfillment → hasErrors said = false) := by
  have hmethods : state.methods = (fulfillment.map Fulfillment.methods).getD [] := by rw [State.methods, hstate]
  obtain ⟨_, _, _, hrequest⟩ := rebuildBody_get state
  unfold evaluateFulfillment at h ⊢
  by_cases hactive : Resource.checkout = .checkout ∧ negotiated.has FULFILLMENT = true
  · rw [if_pos hactive] at h
    obtain ⟨⟨built, said⟩, hbuilt, h⟩ := (bind_ok _ _ _).mp h
    obtain ⟨rfl, rfl⟩ := Prod.mk.inj ((pure_ok _ _).mp h)
    obtain ⟨fresh, saidAgain, hfresh, hiff, hquiet⟩ := buildFulfillment_again py shop.delivery _ _ _ _ _ _ _ hbuilt
      hclean hids
    have hlist : state.methods = built.methods := hmethods
    refine ⟨some fresh, saidAgain, ?_, ?_, fun heq => hquiet (Option.some.inj heq)⟩
    · have hids' : again.items.map Line.id = priced.items.map Line.id := hsame
      rw [if_pos hactive, hrequest, Option.map_some, Option.getD_some, hlist, hids', hcurrency, hsubtotal, hfresh]
      rfl
    · rw [Option.some.injEq, hiff, hlist]
  · rw [if_neg hactive] at h
    obtain ⟨rfl, rfl⟩ := Prod.mk.inj ((pure_ok _ _).mp h)
    rw [if_neg hactive]
    refine ⟨none, [], rfl, ⟨fun _ method hm => ?_, fun _ => rfl⟩, fun _ => rfl⟩
    rw [hmethods] at hm
    cases hm

section Lines

variable (body : Json) (previous : Option State) (reading : Reading)
  (hreads : reading.Reads py consents .checkout shop negotiated body previous)

include hreads

theorem lines_writable (hnumbered : ∀ id ∈ (pricedOf py shop previous reading.parsed).ids, ∃ k, id = lineId k) :
    ∀ line ∈ (pricedOf py shop previous reading.parsed).items, line.Writable := by
  intro line hline
  obtain ⟨index, hget⟩ := List.mem_iff_getElem?.mp hline
  obtain ⟨entry, id, seen, hentry, heq, _⟩ := priceLines_get py.strip _ _ reading.parsed 0 [] _ none index line hget
  obtain ⟨raw, _, hparse⟩ := parseItems_get _ _ 0 _ hreads.parsed index entry hentry
  obtain ⟨hitem, hparent⟩ := parseItem_writable _ _ _ _ hparse
  obtain ⟨k, hk⟩ := hnumbered line.id (List.mem_map_of_mem hline)
  refine ⟨by rw [hk]; exact lineId_ne k, ?_, fun parent hp => ?_⟩
  · rw [← heq, priceLine_itemId]
    exact hitem
  · rw [← heq, priceLine_parent] at hp
    exact hparent parent (Option.filter_eq_some_iff.mp hp).1

theorem items_length : (pricedOf py shop previous reading.parsed).items.length = reading.rawItems.length := by
  have hids := congrArg List.length (priceLines_itemIds py.strip (previousIdsOf previous)
    (shop.catalog (reading.parsed.map ParsedItem.itemId)) reading.parsed 0 [] (nextSeqOf previous) none)
  rw [List.length_map, List.length_map] at hids
  exact hids.trans (parseItems_length _ _ _ _ hreads.parsed)

theorem items_ne_nil : (pricedOf py shop previous reading.parsed).items ≠ [] := by
  have hlength := items_length py consents shop negotiated body previous reading hreads
  obtain ⟨hne, _⟩ := requireList_length _ _ _ hreads.rawItems
  intro hnil
  rw [hnil, List.length_nil] at hlength
  exact hne (List.length_eq_zero_iff.mp hlength.symm)

end Lines

-- What a state's body is read as: its lines, without units, and its methods built again.
theorem rebuilt_reads (body : Json) (previous : Option State) (reading : Reading)
    (hreads : reading.Reads py consents .checkout shop negotiated body previous)
    (hnumbered : ∀ id ∈ (pricedOf py shop previous reading.parsed).ids, ∃ k, id = lineId k)
    (state : State) (hstate : reading.state py shop negotiated previous = state)
    (fresh : Option Fulfillment) (said : List Message)
    (hfresh : evaluateFulfillment py .checkout shop negotiated (rebuildBody state) (some state)
      (pricedOf py shop (some state) (state.lineItems.map rebuiltEntry)) = .ok (fresh, said)) :
    ∃ rereading : Reading, rereading.Reads py consents .checkout shop negotiated (rebuildBody state) (some state) ∧
      rereading.parsed = state.lineItems.map rebuiltEntry ∧ rereading.fulfillment = fresh ∧
      rereading.deliveryMessages = said ∧ rereading.paymentMessages = [] := by
  obtain ⟨hlineItems, hbuyer, hcontext, _⟩ := rebuildBody_get state
  obtain ⟨hattribution, hsignals, hpayment⟩ := rebuildBody_get_none state
  have hitems : state.lineItems = (pricedOf py shop previous reading.parsed).items := by rw [← hstate]; rfl
  have hlength := items_length py consents shop negotiated body previous reading hreads
  obtain ⟨_, hshort⟩ := requireList_length _ _ _ hreads.rawItems
  have hbuyerState : state.buyer = reading.buyer := by rw [← hstate]; rfl
  obtain ⟨⟨buyer, consent⟩, hbuyerAgain⟩ := parseBuyer_rebuilt consents negotiated.version state.buyer
    fun fields hf => parseBuyer_fields consents negotiated.version _ fields reading.consent (by
      rw [hreads.buyer, ← hbuyerState, hf])
  obtain ⟨context, hcontextAgain⟩ := parseContext_rebuilt state.context
  have hpaymentAgain : evaluatePayment .checkout shop negotiated (rebuildBody state) = .ok (some ⟨[], none⟩, []) := by
    unfold evaluatePayment
    rw [if_pos rfl, hpayment]
    unfold parsePayment Json.null
    rw [ok_bind]
    split_ifs <;> rfl
  refine ⟨⟨state.lineItems.map rebuildLine, state.lineItems.map rebuiltEntry, buyer, consent, context, none, none,
    fresh, said, some ⟨[], none⟩, []⟩, ⟨?_, ?_, ?_, ?_, ?_, ?_, hfresh, hpaymentAgain⟩, rfl, rfl, rfl, rfl⟩
  · refine requireList_of _ _ _ hlineItems ?_ ?_
    · rw [hitems]
      exact List.map_eq_nil_iff.not.mpr (items_ne_nil py consents shop negotiated body previous reading hreads)
    · rw [List.length_map, hitems, hlength]
      exact hshort
  · rw [hitems]
    exact parseItems_rebuilt _ _ 0 (lines_writable py consents shop negotiated body previous reading hreads hnumbered)
  · rw [hbuyer]
    exact hbuyerAgain
  · rw [hcontext]
    exact hcontextAgain
  · rw [hattribution]
    rfl
  · rw [hsignals]
    rfl

-- The lines of a state are priced as they were, with the parents that are among them.
theorem priced_again (previous : Option State) (reading : Reading) (state : State)
    (hstate : reading.state py shop negotiated previous = state) (hdistinct : state.lineIds.Nodup)
    (hclean : hasErrors (pricedOf py shop previous reading.parsed).messages = false) :
    ∃ messages, hasErrors messages = false ∧
      pricedOf py shop (some state) (state.lineItems.map rebuiltEntry) =
        ⟨state.lineItems.map (Line.within state.lineIds), messages,
          (pricedOf py shop previous reading.parsed).currency, nextSeqOf (some state)⟩ := by
  have hitems : state.lineItems = (pricedOf py shop previous reading.parsed).items := by rw [← hstate]; rfl
  have hids : state.lineIds = (pricedOf py shop previous reading.parsed).ids := by rw [State.lineIds, hitems]; rfl
  have hcatalog : (state.lineItems.map rebuiltEntry).map ParsedItem.itemId = reading.parsed.map ParsedItem.itemId := by
    rw [List.map_map, hitems]
    exact priceLines_itemIds _ _ _ _ _ _ _ _
  rw [hids] at hdistinct
  obtain ⟨messages, hquiet, hagain⟩ := priceLines_again py.strip (previousIdsOf previous) state.lineIds
    (shop.catalog (reading.parsed.map ParsedItem.itemId)) reading.parsed 0 [] [] (nextSeqOf previous)
    (nextSeqOf (some state)) none (fun id hid => ⟨by rw [hids]; exact hid, List.not_mem_nil⟩) hdistinct hclean
  refine ⟨messages, hquiet, ?_⟩
  rw [pricedOf, hcatalog, hitems]
  exact hagain

theorem subtotal_within (ids : List String) (lines : List Line) :
    (lines.map (Line.within ids)).map Line.amount = lines.map Line.amount := by
  rw [List.map_map]
  rfl

theorem ids_within (ids : List String) (lines : List Line) :
    (lines.map (Line.within ids)).map Line.id = lines.map Line.id := by
  rw [List.map_map]
  rfl

theorem no_errors_of_ready (state : State) (h : state.status = .readyForComplete) :
    hasErrors state.messages = false := by
  cases hm : hasErrors state.messages with
  | false => rfl
  | true =>
      rw [State.status, statusFor, hm] at h
      cases h

-- The check before payment evaluates an unchanged checkout to what it is, just where it is reproducible.
theorem recheck_unchanged_iff (calls : List Call) (body : Json) (state : State)
    (h : evaluate py consents .checkout shop negotiated body (after py consents calls) = .ok state)
    (hready : state.status = .readyForComplete) :
    (∃ fresh, evaluate py consents .checkout shop negotiated (rebuildBody state) (some state) = .ok fresh ∧
      Unchanged state fresh) ↔ Reproducible state := by
  obtain ⟨reading, hreads, hstate⟩ := (evaluate_ok py consents _ _ _ _ _ _).mp h
  obtain ⟨hwell, _⟩ := callOnce_wellNumbered py consents _ ⟨.checkout, shop, negotiated, body⟩
    (after_wellNumbered py consents calls)
  have hcall : callOnce py consents (after py consents calls) ⟨.checkout, shop, negotiated, body⟩ = some state := by
    unfold callOnce
    rw [h]
  rw [hcall] at hwell
  have hdistinct : state.lineIds.Nodup := hwell.issued.distinct
  have hclean := no_errors_of_ready state hready
  have hfulfillment := hreads.fulfillment
  -- the state is what was read, so its lines, its subtotal and its messages are those of the pricing
  have hitems : state.lineItems = (pricedOf py shop (after py consents calls) reading.parsed).items := by
    rw [← hstate]
    rfl
  have hbuilt : state.fulfillment = reading.fulfillment := by rw [← hstate]; rfl
  have htotals : state.totals = computeTotals (pricedOf py shop (after py consents calls) reading.parsed).subtotal
      (shippingTotal reading.fulfillment) := by rw [← hstate]; rfl
  have hmessages : state.messages = (pricedOf py shop (after py consents calls) reading.parsed).messages ++
      reading.deliveryMessages ++ reading.paymentMessages := by rw [← hstate]; rfl
  rw [hmessages] at hclean
  simp only [hasErrors_append_eq_false] at hclean
  obtain ⟨⟨hlines, hdelivery⟩, _⟩ := hclean
  obtain ⟨messages, hquiet, hagain⟩ := priced_again py shop negotiated _ reading state hstate hdistinct hlines
  obtain ⟨fresh, said, hfresh, hiff, hquietDelivery⟩ := evaluateFulfillment_again py shop negotiated body _ _
    (pricedOf py shop (some state) (state.lineItems.map rebuiltEntry)) _ _ state hbuilt hfulfillment hdelivery
    (fun hnil => items_ne_nil py consents shop negotiated body _ reading hreads (List.map_eq_nil_iff.mp hnil))
    (by rw [hagain, Priced.ids, Priced.ids, ids_within, hitems])
    (by rw [hagain])
    (by rw [hagain, Priced.subtotal, Priced.subtotal, subtotal_within, hitems])
  obtain ⟨rereading, hrereads, hparsed, hfreshState, hsaid, hpayment⟩ := rebuilt_reads py consents shop negotiated
    body _ reading hreads (fun id hid => by
      have hnumbered := hwell.issued.numbered id
      have hmem : id ∈ previousIdsOf (some state) := by
        show id ∈ state.lineItems.map Line.id
        rw [hitems]
        exact hid
      obtain ⟨k, hk, _⟩ := hnumbered hmem
      exact ⟨k, hk⟩) state hstate fresh said hfresh
  have hevaluated : evaluate py consents .checkout shop negotiated (rebuildBody state) (some state) =
      .ok (rereading.state py shop negotiated (some state)) :=
    (evaluate_ok py consents _ _ _ _ _ _).mpr ⟨rereading, hrereads, rfl⟩
  have hfreshItems : (rereading.state py shop negotiated (some state)).lineItems =
      state.lineItems.map (Line.within state.lineIds) := by
    show (pricedOf py shop (some state) rereading.parsed).items = _
    rw [hparsed, hagain]
  have hparents := map_within state.lineIds state.lineItems
  constructor
  · rintro ⟨other, hother, hsame⟩
    rw [hevaluated] at hother
    cases hother
    have hsameItems := hsame.lineItems
    have hsameFulfillment : rereading.fulfillment = state.fulfillment := hsame.fulfillment
    rw [hfreshItems] at hsameItems
    rw [hfreshState, hbuilt] at hsameFulfillment
    exact ⟨hparents.mp hsameItems, hiff.mp hsameFulfillment⟩
  · rintro ⟨hparent, hchoices⟩
    have hsame := hiff.mpr hchoices
    refine ⟨_, hevaluated, ⟨?_, ?_, ?_, ?_⟩⟩
    · rw [hfreshItems]
      exact hparents.mpr hparent
    · show rereading.fulfillment = state.fulfillment
      rw [hfreshState, hsame, hbuilt]
    · show computeTotals (pricedOf py shop (some state) rereading.parsed).subtotal
        (shippingTotal rereading.fulfillment) = _
      rw [htotals, hparsed, hagain, hfreshState, hsame, Priced.subtotal, Priced.subtotal, subtotal_within, hitems]
    · show hasErrors ((pricedOf py shop (some state) rereading.parsed).messages ++ rereading.deliveryMessages ++
        rereading.paymentMessages) = false
      rw [hparsed, hagain, hsaid, hpayment]
      simp only [hasErrors_append_eq_false]
      exact ⟨⟨hquiet, hquietDelivery hsame⟩, rfl⟩

end Recheck

section Samples

def basketLine (members : List (String × Json)) : Json :=
  .obj ([("item", .obj [("id", .str "coffee")]), ("quantity", .nat 1)] ++ members)

def basketBody (lines : List Json) : Json := .obj [("line_items", .arr lines)]

def basketEvaluate (body : Json) (previous : Option State) : Except Refusal State :=
  evaluate plainPython noConsents .checkout coffeeShop ⟨"2026-08-25", []⟩ body previous

def twoLines : List Call :=
  [⟨.checkout, coffeeShop, ⟨"2026-08-25", []⟩, basketBody [basketLine [], basketLine []]⟩]

-- The second line alone, still a part of the first.
def orphanBody : Json := basketBody [basketLine [("id", .str "li_2"), ("parent_id", .str "li_1")]]

-- Both lines, the second one a part of the first, sent by post.
def postedMethod : Json :=
  .obj [("id", .str "by post"), ("type", .str "shipping"),
    ("destinations", .arr [.obj [("id", .str "home"), ("address_country", .str "DE")]]),
    ("selected_destination_id", .str "home"), ("groups", .arr [.obj [("selected_option_id", .str "post")]])]

def partBody : Json :=
  .obj [("line_items", .arr [basketLine [("id", .str "li_1")],
      basketLine [("id", .str "li_2"), ("parent_id", .str "li_1")]]),
    ("fulfillment", .obj [("methods", .arr [postedMethod])])]

def postedShop : Shop :=
  { coffeeShop with
    delivery := { coffeeShop.delivery with rates := [⟨"post", "Post", none, 300, "EUR", ["DE"], false, []⟩] } }

def postedEvaluate (body : Json) (previous : Option State) : Except Refusal State :=
  evaluate plainPython noConsents .checkout postedShop ⟨"2026-08-25", [FULFILLMENT]⟩ body previous

def parentsOf (state : State) : List (String × Option String) :=
  state.lineItems.map fun line => (line.id, line.parentId)

end Samples

-- Distinct methods, and parents among the lines, are enough.
theorem reproducible_of_distinct (state : State)
    (hparents : ∀ line ∈ state.lineItems, ∀ parent, line.parentId = some parent → parent ∈ state.lineIds)
    (hmethods : (state.methods.map Method.id).Nodup) : Reproducible state := by
  refine ⟨hparents, fun method hm first hfirst => ?_⟩
  have hid : first.id = method.id := by simpa using List.find?_some hfirst
  rw [List.inj_on_of_nodup_map hmethods (List.mem_of_find?_eq_some hfirst) hm hid]
  exact ⟨rfl, rfl, fun _ => rfl⟩

theorem recheck_unchanged_coffee :
    ∃ state, postedEvaluate partBody (after plainPython noConsents twoLines) = .ok state ∧
      parentsOf state = [("li_1", none), ("li_2", some "li_1")] ∧ ∃ fresh,
        postedEvaluate (rebuildBody state) (some state) = .ok fresh ∧ Unchanged state fresh := by
  have hrun : ((postedEvaluate partBody (after plainPython noConsents twoLines)).toOption.map fun state =>
      (hasErrors state.messages, parentsOf state, state.methods.map Method.id)) =
        some (false, [("li_1", none), ("li_2", some "li_1")], ["by post"]) := by
    decide +kernel
  cases he : postedEvaluate partBody (after plainPython noConsents twoLines) with
  | error refusal =>
      rw [he] at hrun
      cases hrun
  | ok state =>
      rw [he] at hrun
      obtain ⟨hclean, hrun⟩ := Prod.mk.inj (Option.some.inj hrun)
      obtain ⟨hparents, hmethods⟩ := Prod.mk.inj hrun
      have hready : state.status = .readyForComplete := by
        show statusFor state.messages = _
        rw [statusFor, hclean]
        rfl
      have hids : state.lineIds = ["li_1", "li_2"] := by
        have hfst := congrArg (List.map Prod.fst) hparents
        rw [parentsOf, List.map_map] at hfst
        exact hfst
      refine ⟨state, rfl, hparents, (recheck_unchanged_iff plainPython noConsents postedShop
        ⟨"2026-08-25", [FULFILLMENT]⟩ twoLines partBody state he hready).mpr ?_⟩
      refine reproducible_of_distinct state (fun line hline parent hp => ?_) (hmethods ▸ List.nodup_singleton _)
      have hmem : (line.id, line.parentId) ∈ parentsOf state := List.mem_map_of_mem hline
      rw [hparents, hp] at hmem
      rw [hids]
      simp only [List.mem_cons, Prod.mk.injEq, reduceCtorEq, and_false, Option.some.injEq, List.not_mem_nil, or_false,
        false_or] at hmem
      exact hmem.2 ▸ List.mem_cons_self

-- A line whose parent went with the same update is ready, and loses its parent in the check.
theorem recheck_drops_parent :
    ∃ state, basketEvaluate orphanBody (after plainPython noConsents twoLines) = .ok state ∧
      state.status = .readyForComplete ∧ ¬∃ fresh,
        basketEvaluate (rebuildBody state) (some state) = .ok fresh ∧ Unchanged state fresh := by
  have hrun : ((basketEvaluate orphanBody (after plainPython noConsents twoLines)).toOption.map fun state =>
      (hasErrors state.messages, parentsOf state)) = some (false, [("li_2", some "li_1")]) := by
    decide +kernel
  have hrecheck : ((basketEvaluate orphanBody (after plainPython noConsents twoLines)).toOption.map fun state =>
      (basketEvaluate (rebuildBody state) (some state)).toOption.map parentsOf) = some (some [("li_2", none)]) := by
    decide +kernel
  cases he : basketEvaluate orphanBody (after plainPython noConsents twoLines) with
  | error refusal =>
      rw [he] at hrun
      cases hrun
  | ok state =>
      rw [he] at hrun hrecheck
      obtain ⟨hclean, hparents⟩ := Prod.mk.inj (Option.some.inj hrun)
      have hagain : (basketEvaluate (rebuildBody state) (some state)).toOption.map parentsOf = some [("li_2", none)] :=
        Option.some.inj hrecheck
      refine ⟨state, rfl, ?_, ?_⟩
      · show statusFor state.messages = _
        rw [statusFor, hclean]
        rfl
      · rintro ⟨fresh, hfresh, hsame⟩
        rw [hfresh] at hagain
        have hlost : parentsOf fresh = [("li_2", none)] := Option.some.inj hagain
        rw [parentsOf, hsame.lineItems] at hlost
        rw [parentsOf, hlost] at hparents
        cases hparents

end AgenticOrg.Commerce.Ucp
