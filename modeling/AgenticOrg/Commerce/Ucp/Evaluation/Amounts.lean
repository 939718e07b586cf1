import AgenticOrg.Commerce.Ucp.Evaluation
import AgenticOrg.Commerce.Ucp.LineItems.Pricing

namespace AgenticOrg.Commerce.Ucp

open Decimals OrderedDict
open AgenticOrg.Workflows (Json Scalar)

section Exactness

def itemsOf : Json → List Json
  | .arr items => items
  | _ => []

theorem requireList_ok (body : Json) (name : String) (items : List Json) (h : requireList body name = .ok items) :
    itemsOf (body.get name) = items := by
  unfold requireList at h
  split at h
  · rename_i hbody
    split at h
    · cases h
    · cases h
      rw [hbody]
      rfl
  · cases h

def State.itemIds (state : State) : List String := state.lineItems.map fun line => line.item.id

variable (py : Python) (consents : ConsentParser)

-- A line without an error is charged the exact product of its item's price and its physical quantity, rounded
-- once half to even: in the scale asserted, where the release has units and one is asserted, else in the item's
-- own. Within one unit a quantity is refused just when the item's steps do not count it within the range.
theorem amounts_exact (resource : Resource) (shop : Shop) (negotiated : Negotiated) (body : Json)
    (previous : Option State) (state : State)
    (h : evaluate py consents resource shop negotiated body previous = .ok state) :
    (∀ index line, state.lineItems[index]? = some line → Clean index state.messages →
      ∃ item raw, shop.catalog state.itemIds line.item.id = some item ∧
        (itemsOf (body.get "line_items"))[index]? = some raw ∧ ∃ quantity : ℕ, raw.get "quantity" = .nat quantity ∧
        (∀ asserted, assertedUnit negotiated.version raw = some asserted →
          ∃ unit, parseQuantityUnit py.strip asserted = .ok unit ∧
            line.amount = halfEven (item.price * (quantity / 10 ^ unit.scale))) ∧
        (assertedUnit negotiated.version raw = none →
          line.amount = halfEven (item.price * (quantity / 10 ^ item.quantityUnit.scale)))) ∧
    (∀ (asserted authoritative : QuantityUnit) (quantity : Quantity), asserted.unit = authoritative.unit →
      ((reconcile (some asserted) authoritative quantity).isOk = false ↔
        ¬∃ steps : ℕ, (steps / 10 ^ authoritative.scale : ℚ) = quantity.val / 10 ^ asserted.scale ∧
          1 ≤ steps ∧ steps ≤ MAX_QUANTITY)) := by
  refine ⟨fun index line hline hclean => ?_, fun asserted authoritative quantity hunit =>
    reconcile_refuses_iff authoritative quantity asserted hunit⟩
  obtain ⟨reading, hreads, rfl⟩ := (evaluate_ok py consents _ _ _ _ _ _).mp h
  obtain ⟨entry, id, seen, hentry, rfl, hmessages⟩ := priceLines_get py.strip _ _ reading.parsed 0 [] _ none index
    line hline
  rw [Nat.zero_add] at hmessages ⊢
  obtain ⟨raw, hraw, hparse⟩ := parseItems_get _ _ 0 _ hreads.parsed index entry hentry
  obtain ⟨hquantity, hasserted⟩ := parseItem_ok _ _ _ _ hparse
  obtain ⟨item, hitem, hunit, hplain⟩ := priceLine_amount py.strip _ _ seen index id entry
    fun message hm => hclean message (List.mem_append_left _ (List.mem_append_left _ (hmessages message hm)))
  have hids : (reading.state py shop negotiated previous).itemIds = reading.parsed.map ParsedItem.itemId :=
    priceLines_itemIds _ _ _ _ _ _ _ _
  refine ⟨item, raw, ?_, ?_, entry.quantity.val, hquantity, ?_, ?_⟩
  · rw [hids, priceLine_itemId]
    exact hitem
  · rw [requireList_ok _ _ _ hreads.rawItems]
    exact hraw
  · rw [← hasserted]
    exact hunit
  · rw [← hasserted]
    exact hplain

end Exactness

section Samples

def plainPython : Python where
  str value := if value.truthy then (givenText value).getD "?" else ""
  strip := id
  upper := id
  regionKey := id
  compactPostalCode := id
  str_text text := by
    by_cases h : text = ""
    · simp [Json.truthy, Scalar.truthy, Json.str, h]
    · simp [Json.truthy, Scalar.truthy, Json.str, givenText, h]
  str_truthy value h := by
    rw [if_pos h]
    cases value with
    | scalar inner =>
        cases inner with
        | str text =>
            have hne : text ≠ "" := of_decide_eq_true h
            simp only [givenText, if_neg hne, Option.getD_some]
            exact hne
        | _ => exact (by decide : "?" ≠ "")
    | _ => exact (by decide : "?" ≠ "")

def noConsents : ConsentParser where
  parse _ _ := .ok none
  parse_null _ := rfl

theorem single_increment : 1 ≤ 1 ∧ 1 ≤ MAX_QUANTITY := by decide

def kilograms (scale : ℕ) (h : scale ≤ MAX_SCALE) : QuantityUnit := ⟨"KGM", scale, "kg", 1, h, single_increment⟩

def kilogramsJson (scale : ℕ) : Json :=
  .obj [("unit", .str "KGM"), ("scale", .nat scale), ("display_text", .str "kg")]

-- Sold in grams, at ten a kilogram.
def coffee : CatalogItem := ⟨"Coffee", 1000, "EUR", none, none, kilograms 3 (by decide), none⟩

def coffeeShop : Shop where
  catalog _ _ := some coffee
  delivery := ⟨⟨true, false, [], [], none, []⟩, [], []⟩
  paymentTermIds := []
  offersHandler _ _ := false

def coffeeBody (quantity scale : ℕ) : Json :=
  .obj [("line_items", .arr [.obj [("quantity", .nat quantity),
    ("item", .obj [("id", .str "coffee"), ("quantity_unit", kilogramsJson scale)])]])]

def charged (version : String) (body : Json) : Option (List ℤ × Bool) :=
  (evaluate plainPython noConsents .cart coffeeShop ⟨version, []⟩ body none).toOption.map fun state =>
    (state.lineItems.map Line.amount, hasErrors state.messages)

theorem clean_of_no_errors (messages : List Message) (index : ℕ) (h : hasErrors messages = false) :
    Clean index messages := by
  intro message hm hkind _
  rw [hasErrors, List.any_eq_false] at h
  exact h message hm (decide_eq_true hkind)

theorem charged_some (version : String) (body : Json) (amounts : List ℤ)
    (h : charged version body = some (amounts, false)) :
    ∃ state, evaluate plainPython noConsents .cart coffeeShop ⟨version, []⟩ body none = .ok state ∧
      state.lineItems.map Line.amount = amounts ∧ ∀ index, Clean index state.messages := by
  unfold charged at h
  cases he : evaluate plainPython noConsents .cart coffeeShop ⟨version, []⟩ body none with
  | error refusal =>
      rw [he] at h
      cases h
  | ok state =>
      rw [he] at h
      obtain ⟨hamounts, hclean⟩ := Prod.mk.inj (Option.some.inj h)
      exact ⟨state, rfl, hamounts, fun index => clean_of_no_errors _ index hclean⟩

end Samples

theorem amounts_exact_coffee :
    ∃ state line unit, evaluate plainPython noConsents .cart coffeeShop ⟨"2026-08-25", []⟩ (coffeeBody 2 0) none =
        .ok state ∧
      state.lineItems[0]? = some line ∧ parseQuantityUnit id (kilogramsJson 0) = .ok unit ∧
      line.amount = halfEven (coffee.price * ((2 : ℕ) / 10 ^ unit.scale)) := by
  obtain ⟨state, hs, hamounts, hclean⟩ := charged_some "2026-08-25" (coffeeBody 2 0) [2000] (by decide +kernel)
  obtain ⟨line, hline⟩ : ∃ line, state.lineItems = [line] := by
    obtain ⟨line, hline, _⟩ := List.map_eq_singleton_iff.mp hamounts
    exact ⟨line, hline⟩
  have hfirst : state.lineItems[0]? = some line := by rw [hline]; rfl
  obtain ⟨item, raw, hitem, hraw, quantity, hq, hunit, _⟩ :=
    (amounts_exact plainPython noConsents .cart coffeeShop ⟨"2026-08-25", []⟩ (coffeeBody 2 0) none state hs).1
      0 line hfirst (hclean 0)
  cases hitem
  cases hraw
  have htwo : quantity = 2 := by
    have hnat : Json.nat 2 = Json.nat quantity := hq
    simp only [Json.nat, Json.scalar.injEq, Scalar.int.injEq] at hnat
    omega
  subst htwo
  have hgiven : (assertedUnit "2026-08-25" (.obj [("quantity", .nat 2),
      ("item", .obj [("id", .str "coffee"), ("quantity_unit", kilogramsJson 0)])])) = some (kilogramsJson 0) := by
    have hle : V2026_08_25 ≤ "2026-08-25" := by decide +kernel
    rw [assertedUnit, if_pos hle]
    rfl
  obtain ⟨unit, hparse, hamount⟩ := hunit _ hgiven
  exact ⟨state, line, unit, hs, hfirst, hparse, hamount⟩

-- In a release whose quantities have no unit, one that is sent all the same is not read.
theorem unit_not_read :
    ∃ state line unit, evaluate plainPython noConsents .cart coffeeShop ⟨"2026-04-08", []⟩ (coffeeBody 2 0) none =
        .ok state ∧
      state.lineItems[0]? = some line ∧ Clean 0 state.messages ∧
      parseQuantityUnit id (kilogramsJson 0) = .ok unit ∧ unit.scale = 0 ∧
      line.amount ≠ halfEven (coffee.price * ((2 : ℕ) / 10 ^ unit.scale)) := by
  obtain ⟨state, hs, hamounts, hclean⟩ := charged_some "2026-04-08" (coffeeBody 2 0) [2] (by decide +kernel)
  obtain ⟨line, hline, hamount⟩ := List.map_eq_singleton_iff.mp hamounts
  refine ⟨state, line, kilograms 0 (by decide), hs, by rw [hline]; rfl, hclean 0, rfl, rfl, ?_⟩
  rw [hamount]
  have hproduct : (coffee.price * ((2 : ℕ) / 10 ^ (kilograms 0 (by decide)).scale) : ℚ) = ((2000 : ℤ) : ℚ) := by
    norm_num [coffee, kilograms]
  rw [hproduct, halfEven_intCast]
  decide

end AgenticOrg.Commerce.Ucp
