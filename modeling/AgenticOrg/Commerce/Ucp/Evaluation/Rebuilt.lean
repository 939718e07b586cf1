import AgenticOrg.Commerce.Ucp.Evaluation.History
import AgenticOrg.Commerce.Ucp.LineItems.Pricing

namespace AgenticOrg.Commerce.Ucp

open Fallible
open AgenticOrg.Workflows (Json Scalar)

section Errors

theorem hasErrors_append (first second : List Message) :
    hasErrors (first ++ second) = (hasErrors first || hasErrors second) := List.any_append

theorem hasErrors_append_eq_false (first second : List Message) :
    hasErrors (first ++ second) = false ↔ hasErrors first = false ∧ hasErrors second = false := by
  rw [hasErrors_append, Bool.or_eq_false_iff]

end Errors

section Lines

theorem nonEmpty_of_ne (text : String) (h : text ≠ "") : nonEmpty text = some text := if_neg h

theorem givenText_str (text : String) (h : text ≠ "") : givenText (.str text) = some text := if_neg h

theorem givenText_some (value : Json) (text : String) (h : givenText value = some text) : text ≠ "" := by
  unfold givenText at h
  split at h
  · split at h
    · cases h
    · rename_i hne
      cases h
      exact hne
  · cases h

-- What a line of a stored state is read back as.
def rebuiltEntry (line : Line) : ParsedItem :=
  ⟨some line.id, line.item.id, line.quantity, none, line.parentId⟩

-- A line whose ids and parent are texts a body may carry.
structure Line.Writable (line : Line) : Prop where
  id : line.id ≠ ""
  itemId : line.item.id ≠ "" ∧ line.item.id.length ≤ 200
  parent : ∀ parent, line.parentId = some parent → parent ≠ ""

theorem rebuildLine_get (line : Line) :
    (rebuildLine line).get "id" = .str line.id ∧ (rebuildLine line).get "item" = .obj [("id", .str line.item.id)] ∧
      (rebuildLine line).get "quantity" = .nat line.quantity.val ∧
      (rebuildLine line).get "parent_id" = ((line.parentId.bind nonEmpty).map Json.str).getD .null := by
  unfold rebuildLine
  cases line.parentId.bind nonEmpty <;> exact ⟨rfl, rfl, rfl, rfl⟩

theorem parseItem_rebuilt (version : String) (index : ℕ) (line : Line) (h : line.Writable) :
    parseItem version index (rebuildLine line) = .ok (rebuiltEntry line) := by
  obtain ⟨hid, hitem, hquantity, hparent⟩ := rebuildLine_get line
  have hparentText : givenText ((rebuildLine line).get "parent_id") = line.parentId := by
    rw [hparent]
    cases hp : line.parentId with
    | none => rfl
    | some parent =>
        have hne := h.parent parent hp
        rw [Option.bind_some, nonEmpty_of_ne parent hne]
        exact givenText_str parent hne
  have hname : (Json.obj [("id", Json.str line.item.id)]).get "id" = .str line.item.id := rfl
  have hunit : (if V2026_08_25 ≤ version then given ((Json.obj [("id", Json.str line.item.id)]).get "quantity_unit")
      else none) = none := by
    split_ifs <;> rfl
  unfold parseItem
  rw [hid, hitem, hquantity, hparentText, hname, givenText_str _ h.itemId.1, givenText_str _ h.id,
    parseQuantity_nat _ line.quantity.property, hunit]
  simp only [Option.elim_some, ok_bind, require, decide_eq_true h.itemId.2]
  rfl

theorem parseItems_rebuilt (version : String) (lines : List Line) (index : ℕ) (h : ∀ line ∈ lines, line.Writable) :
    parseItems version index (lines.map rebuildLine) = .ok (lines.map rebuiltEntry) := by
  induction lines generalizing index with
  | nil => rfl
  | cons line rest ih =>
      rw [List.map_cons, parseItems, parseItem_rebuilt version index line (h line List.mem_cons_self), ok_bind,
        ih (index + 1) fun other ho => h other (List.mem_cons_of_mem _ ho)]
      rfl

theorem parseItem_writable (version : String) (index : ℕ) (raw : Json) (entry : ParsedItem)
    (h : parseItem version index raw = .ok entry) :
    (entry.itemId ≠ "" ∧ entry.itemId.length ≤ 200) ∧ ∀ parent, entry.parent = some parent → parent ≠ "" := by
  unfold parseItem at h
  obtain ⟨_, _, h⟩ := (bind_ok _ _ _).mp h
  obtain ⟨itemId, hitem, h⟩ := (bind_ok _ _ _).mp h
  obtain ⟨_, hlength, h⟩ := (bind_ok _ _ _).mp h
  obtain ⟨quantity, _, h⟩ := (bind_ok _ _ _).mp h
  obtain rfl := (pure_ok _ _).mp h
  refine ⟨⟨?_, ?_⟩, fun parent hp => givenText_some _ _ hp⟩
  · cases hg : givenText ((raw.get "item").get "id") with
    | none =>
        rw [hg] at hitem
        cases hitem
    | some text =>
        rw [hg] at hitem
        cases hitem
        exact givenText_some _ _ hg
  · by_contra hlong
    rw [require, decide_eq_false hlong] at hlength
    cases hlength

end Lines

section Pricing

variable (strip : String → String) (previousIds ids : List String) (found : String → Option CatalogItem)

-- A line with its parent forgotten where it is none of these ids.
def Line.within (line : Line) : Line := { line with parentId := line.parentId.filter (ids.contains ·) }

-- A line priced without an error is priced the same again; its quantity is in the item's own unit by then.
theorem priceLine_again (currency : Option String) (index : ℕ) (id : String) (entry : ParsedItem)
    (hclean : hasErrors (priceLine strip previousIds found currency index id entry).2 = false) :
    (priceLine strip ids found currency index id
        (rebuiltEntry (priceLine strip previousIds found currency index id entry).1)).1 =
      Line.within ids (priceLine strip previousIds found currency index id entry).1 ∧
    hasErrors (priceLine strip ids found currency index id
      (rebuiltEntry (priceLine strip previousIds found currency index id entry).1)).2 = false := by
  cases hf : found entry.itemId with
  | none =>
      simp only [priceLine, hf] at hclean
      cases hclean
  | some item =>
      simp only [priceLine, hf] at hclean ⊢
      simp only [hasErrors_append_eq_false] at hclean
      obtain ⟨⟨⟨hcurrency, _⟩, hincrement⟩, hstock⟩ := hclean
      simp only [rebuiltEntry, render, hf, settleQuantity, Line.within, List.append_nil]
      refine ⟨trivial, ?_⟩
      simp only [hasErrors_append_eq_false]
      exact ⟨⟨hcurrency, hincrement⟩, hstock⟩

theorem priceLine_found (currency : Option String) (index : ℕ) (id : String) (entry : ParsedItem) :
    (rebuiltEntry (priceLine strip previousIds found currency index id entry).1).itemId = entry.itemId :=
  priceLine_itemId strip previousIds found currency index id entry

theorem priceLines_again (entries : List ParsedItem) (index : ℕ) (used used' : List String) (nextSeq nextSeq' : ℕ)
    (currency : Option String)
    (hids : ∀ id ∈ (priceLines strip previousIds found index used nextSeq currency entries).ids,
      id ∈ ids ∧ id ∉ used')
    (hdistinct : (priceLines strip previousIds found index used nextSeq currency entries).ids.Nodup)
    (hclean : hasErrors (priceLines strip previousIds found index used nextSeq currency entries).messages = false) :
    let priced := priceLines strip previousIds found index used nextSeq currency entries
    ∃ messages, hasErrors messages = false ∧
      priceLines strip ids found index used' nextSeq' currency (priced.items.map rebuiltEntry) =
        ⟨priced.items.map (Line.within ids), messages, priced.currency, nextSeq'⟩ := by
  induction entries generalizing index used used' nextSeq nextSeq' currency with
  | nil => exact ⟨[], rfl, rfl⟩
  | cons entry rest ih =>
      obtain ⟨id, next, hchosen⟩ : ∃ id next, chooseId previousIds used nextSeq entry.lineId = (id, next) :=
        ⟨_, _, rfl⟩
      simp only [priceLines, hchosen, Priced.ids, List.map_cons, priceLine_id, List.mem_cons, forall_eq_or_imp,
        List.nodup_cons, hasErrors_append_eq_false] at hids hdistinct hclean ⊢
      obtain ⟨⟨hid, hunused⟩, hids⟩ := hids
      obtain ⟨hfresh, hdistinct⟩ := hdistinct
      obtain ⟨hline, hclean⟩ := hclean
      obtain ⟨hagain, hmessages⟩ := priceLine_again strip previousIds ids found currency index id entry hline
      have hkeep : chooseId ids used' nextSeq'
          (rebuiltEntry (priceLine strip previousIds found currency index id entry).1).lineId = (id, nextSeq') := by
        rw [rebuiltEntry, priceLine_id]
        exact chooseId_keep ids used' nextSeq' id hid hunused
      obtain ⟨others, hothers, hrest⟩ := ih (index + 1) (id :: used) (id :: used') next nextSeq'
        (currency.or ((found entry.itemId).map CatalogItem.currency))
        (fun other ho => ⟨(hids other ho).1, fun h => by
          rcases List.mem_cons.mp h with rfl | h
          · exact hfresh ho
          · exact (hids other ho).2 h⟩) hdistinct hclean
      refine ⟨_, (hasErrors_append_eq_false _ _).mpr ⟨hmessages, hothers⟩, ?_⟩
      simp only [hkeep, priceLine_found, hrest, hagain]

end Pricing

section Members

def rebuiltFulfillment (methods : List Method) : Json :=
  if methods.isEmpty then .null else .obj [("methods", .arr (methods.map rebuildMethod))]

theorem rebuildBody_get (state : State) :
    (rebuildBody state).get "line_items" = .arr (state.lineItems.map rebuildLine) ∧
      (rebuildBody state).get "buyer" = (state.buyer.map fun fields => Json.obj (textFields fields)).getD .null ∧
      (rebuildBody state).get "context" = (state.context.map Context.toJson).getD .null ∧
      (rebuildBody state).get "fulfillment" = rebuiltFulfillment state.methods := by
  unfold rebuildBody rebuiltFulfillment
  cases state.buyer <;> cases state.context <;> split_ifs <;> exact ⟨rfl, rfl, rfl, rfl⟩

theorem rebuildBody_get_none (state : State) :
    (rebuildBody state).get "attribution" = .null ∧ (rebuildBody state).get "signals" = .null ∧
      (rebuildBody state).get "payment" = .null := by
  unfold rebuildBody
  cases state.buyer <;> cases state.context <;> split_ifs <;> exact ⟨rfl, rfl, rfl⟩

theorem get_of_forall (fields : List (String × Json)) (key : String) (P : Json → Prop) (hnull : P .null)
    (h : ∀ field ∈ fields, field.1 = key → P field.2) : P ((Json.obj fields).get key) := by
  show P (((fields.find? fun field => field.1 == key).map Prod.snd).getD .null)
  cases hf : fields.find? fun field => field.1 == key with
  | none => exact hnull
  | some field =>
      have hkey : (field.1 == key) = true := by simpa using List.find?_some hf
      exact h field (List.mem_of_find?_eq_some hf) (eq_of_beq hkey)

-- The fields a buyer is kept with name no consent.
theorem parseBuyer_fields (consents : ConsentParser) (version : String) (raw : Json)
    (fields : List (String × String)) (consent : Option Json)
    (h : parseBuyer consents version raw = .ok (some fields, consent)) : ∀ field ∈ fields, field.1 ≠ "consent" := by
  unfold parseBuyer at h
  split at h
  · cases h
  · obtain ⟨_, _, h⟩ := (bind_ok _ _ _).mp h
    cases h
    intro field hfield
    obtain ⟨key, hkey, hmap⟩ := List.mem_filterMap.mp hfield
    obtain ⟨text, _, rfl⟩ := Option.map_eq_some_iff.mp hmap
    exact (by decide : ∀ key ∈ BUYER_FIELDS, key ≠ "consent") key hkey
  · cases h

theorem parseBuyer_rebuilt (consents : ConsentParser) (version : String) (buyer : Option (List (String × String)))
    (h : ∀ fields, buyer = some fields → ∀ field ∈ fields, field.1 ≠ "consent") :
    ∃ result, parseBuyer consents version ((buyer.map fun fields => Json.obj (textFields fields)).getD .null) =
      .ok result := by
  cases buyer with
  | none => exact ⟨_, rfl⟩
  | some fields =>
      have hnone : (Json.obj (textFields fields)).get "consent" = .null := by
        refine get_of_forall _ _ (· = .null) rfl fun field hfield hkey => ?_
        obtain ⟨pair, hpair, rfl⟩ := List.mem_map.mp hfield
        exact absurd hkey (h fields rfl pair hpair)
      refine ⟨(some (BUYER_FIELDS.filterMap (buyerField (.obj (textFields fields)))), none), ?_⟩
      rw [Option.map_some, Option.getD_some, parseBuyer, hnone, consents.parse_null]
      rfl

theorem contextPayments_rebuilt (entries : List (String × List String)) :
    ∃ result, contextPayments (.arr (entries.map fun entry =>
      .obj [("handler", .str entry.1), ("types", .arr (entry.2.map .str))])) = .ok result := by
  have hentries : ∀ entries : List (String × List String), ∃ results,
      ((entries.map fun entry => Json.obj [("handler", .str entry.1), ("types", .arr (entry.2.map .str))]).filterMap
        contextPayment).mapM id = (.ok results : Except Refusal _) := by
    intro entries
    induction entries with
    | nil => exact ⟨[], rfl⟩
    | cons entry rest ih =>
        obtain ⟨results, hrest⟩ := ih
        have hone : ∃ result, contextPayment (.obj [("handler", .str entry.1), ("types", .arr (entry.2.map .str))]) =
            some (.ok result) := by
          cases entry.2 <;> exact ⟨_, rfl⟩
        obtain ⟨result, hone⟩ := hone
        refine ⟨result :: results, ?_⟩
        rw [List.map_cons, List.filterMap_cons, hone]
        dsimp only
        rw [List.mapM_cons, id_eq, ok_bind, hrest]
        rfl
  obtain ⟨results, h⟩ := hentries entries
  refine ⟨some results, ?_⟩
  rw [contextPayments, h]
  rfl

theorem parseContext_rebuilt (context : Option Context) :
    ∃ result, parseContext ((context.map Context.toJson).getD .null) = .ok result := by
  cases context with
  | none => exact ⟨_, rfl⟩
  | some context =>
      have hpayment : ∃ result, contextPayments (context.toJson.get "payment") = .ok result := by
        refine get_of_forall _ _ (fun value => ∃ result, contextPayments value = .ok result) ⟨none, rfl⟩
          fun field hfield hkey => ?_
        rcases List.mem_append.mp hfield with hfield | hfield
        · rcases List.mem_append.mp hfield with hfield | hfield
          · obtain ⟨pair, _, rfl⟩ := List.mem_map.mp hfield
            exact ⟨none, rfl⟩
          · obtain ⟨names, _, rfl⟩ := Option.map_eq_some_iff.mp (Option.mem_toList.mp hfield)
            exact absurd hkey (by decide : "eligibility" ≠ "payment")
        · obtain ⟨entries, _, rfl⟩ := Option.map_eq_some_iff.mp (Option.mem_toList.mp hfield)
          exact contextPayments_rebuilt entries
      obtain ⟨result, hresult⟩ := hpayment
      refine ⟨some ⟨CONTEXT_FIELDS.filterMap (contextField context.toJson),
        eligibilityOf (context.toJson.get "eligibility"), result⟩, ?_⟩
      rw [Option.map_some, Option.getD_some]
      unfold Context.toJson at hresult ⊢
      rw [parseContext, hresult]
      rfl

end Members

end AgenticOrg.Commerce.Ucp
