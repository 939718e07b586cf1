import AgenticOrg.Commerce.Ucp.LineItems
import AgenticOrg.Commerce.Ucp.Quantity.Theorems

namespace AgenticOrg.Commerce.Ucp

open Decimals Fallible
open AgenticOrg.Workflows (Json Scalar)

section Reading

theorem intWithin_some (low high : ℕ) (value : Json) (n : { n : ℕ // low ≤ n ∧ n ≤ high })
    (h : intWithin low high value = some n) : value = .nat n.val := by
  unfold intWithin at h
  split at h
  · rename_i number
    split at h
    · cases h
      have hcast : (number.toNat : ℤ) = number := Int.toNat_of_nonneg (by omega)
      simp only [Json.nat, hcast]
    · cases h
  · cases h

theorem parseQuantity_ok (value : Json) (quantity : Quantity) (h : parseQuantity value = .ok quantity) :
    value = .nat quantity.val := by
  unfold parseQuantity at h
  split at h
  · cases h
  · cases hw : intWithin 1 MAX_QUANTITY value with
    | none =>
        rw [hw] at h
        cases h
    | some n =>
        rw [hw] at h
        cases h
        exact intWithin_some 1 MAX_QUANTITY value _ hw

-- The unit a body asserts for a line, in a release that has units.
def assertedUnit (version : String) (raw : Json) : Option Json :=
  if V2026_08_25 ≤ version then given ((raw.get "item").get "quantity_unit") else none

theorem parseItem_ok (version : String) (index : ℕ) (raw : Json) (entry : ParsedItem)
    (h : parseItem version index raw = .ok entry) :
    raw.get "quantity" = .nat entry.quantity.val ∧ entry.asserted = assertedUnit version raw := by
  unfold parseItem at h
  obtain ⟨_, _, h⟩ := (bind_ok _ _ _).mp h
  obtain ⟨itemId, _, h⟩ := (bind_ok _ _ _).mp h
  obtain ⟨_, _, h⟩ := (bind_ok _ _ _).mp h
  obtain ⟨quantity, hq, h⟩ := (bind_ok _ _ _).mp h
  obtain rfl := (pure_ok _ _).mp h
  refine ⟨?_, rfl⟩
  cases hp : parseQuantity (raw.get "quantity") with
  | error fault =>
      rw [hp] at hq
      cases hq
  | ok parsed =>
      rw [hp] at hq
      cases hq
      exact parseQuantity_ok _ _ hp

theorem parseItems_get (version : String) (raws : List Json) (start : ℕ) (parsed : List ParsedItem)
    (h : parseItems version start raws = .ok parsed) (index : ℕ) (entry : ParsedItem)
    (he : parsed[index]? = some entry) :
    ∃ raw, raws[index]? = some raw ∧ parseItem version (start + index) raw = .ok entry := by
  induction raws generalizing start parsed index with
  | nil =>
      cases h
      cases he
  | cons raw rest ih =>
      obtain ⟨first, hf, h⟩ := (bind_ok _ _ _).mp h
      obtain ⟨others, ho, h⟩ := (bind_ok _ _ _).mp h
      obtain rfl := (pure_ok _ _).mp h
      cases index with
      | zero =>
          cases he
          exact ⟨raw, rfl, hf⟩
      | succ index =>
          obtain ⟨found, hfound, hparse⟩ := ih (start + 1) others ho index he
          exact ⟨found, hfound, by rwa [Nat.add_right_comm] at hparse⟩

end Reading

section Lines

variable (strip : String → String) (previousIds : List String) (found : String → Option CatalogItem)

@[simp] theorem priceLine_itemId (currency : Option String) (index : ℕ) (id : String) (entry : ParsedItem) :
    (priceLine strip previousIds found currency index id entry).1.item.id = entry.itemId := by
  unfold priceLine
  cases found entry.itemId <;> rfl

-- Each line is priced from the item of its place, and what is said about it is kept.
theorem priceLines_get (entries : List ParsedItem) (start : ℕ) (used : List String) (nextSeq : ℕ)
    (currency : Option String) (index : ℕ) (line : Line)
    (h : (priceLines strip previousIds found start used nextSeq currency entries).items[index]? = some line) :
    ∃ entry id seen, entries[index]? = some entry ∧
      (priceLine strip previousIds found seen (start + index) id entry).1 = line ∧
      ∀ message ∈ (priceLine strip previousIds found seen (start + index) id entry).2,
        message ∈ (priceLines strip previousIds found start used nextSeq currency entries).messages := by
  induction entries generalizing start used nextSeq currency index with
  | nil => cases h
  | cons entry rest ih =>
      cases index with
      | zero =>
          refine ⟨entry, _, _, rfl, Option.some.inj h, fun message hm => ?_⟩
          exact List.mem_append_left _ hm
      | succ index =>
          obtain ⟨other, id, seen, he, hline, hm⟩ := ih (start + 1) _ _ _ index h
          rw [Nat.add_right_comm] at hline hm
          exact ⟨other, id, seen, he, hline, fun message hmem => List.mem_append_right _ (hm message hmem)⟩

theorem priceLines_itemIds (entries : List ParsedItem) (start : ℕ) (used : List String) (nextSeq : ℕ)
    (currency : Option String) :
    (priceLines strip previousIds found start used nextSeq currency entries).items.map (fun line => line.item.id) =
      entries.map ParsedItem.itemId := by
  induction entries generalizing start used nextSeq currency with
  | nil => rfl
  | cons entry rest ih => simp only [priceLines, List.map_cons, priceLine_itemId, ih]

-- No error message at the line or below it.
def Clean (index : ℕ) (messages : List Message) : Prop :=
  ∀ message ∈ messages, message.kind = .error → ¬(linePath index).toList <+: message.path.toList

theorem not_clean (index : ℕ) (messages : List Message) (code content below : String)
    (h : error code content (linePath index ++ below) ∈ messages) : ¬Clean index messages := by
  intro hclean
  refine hclean _ h rfl ?_
  rw [error, String.toList_append]
  exact List.prefix_append _ _

-- Without an error the unit asserted is one, and the quantity settled is what was asserted.
theorem settleQuantity_exact (index : ℕ) (item : CatalogItem) (entry : ParsedItem) (asserted : Json)
    (ha : entry.asserted = some asserted)
    (hclean : Clean index (settleQuantity strip (linePath index) item entry).2) :
    ∃ unit, parseQuantityUnit strip asserted = .ok unit ∧
      ((settleQuantity strip (linePath index) item entry).1.val / 10 ^ item.quantityUnit.scale : ℚ) =
        entry.quantity.val / 10 ^ unit.scale := by
  cases hu : parseQuantityUnit strip asserted with
  | error fault =>
      refine absurd hclean (not_clean index _ fault.code fault.message ".item.quantity_unit" ?_)
      unfold settleQuantity
      rw [ha]
      dsimp only
      rw [hu]
      exact List.mem_cons_self
  | ok unit =>
      cases hr : reconcile (some unit) item.quantityUnit entry.quantity with
      | error fault =>
          refine absurd hclean (not_clean index _ fault.code fault.message ".item.quantity_unit" ?_)
          unfold settleQuantity
          rw [ha]
          dsimp only
          rw [hu, ok_bind, hr]
          exact List.mem_cons_self
      | ok settled =>
          refine ⟨unit, rfl, ?_⟩
          have hexact := reconcile_exact item.quantityUnit entry.quantity (some unit) settled hr
          unfold settleQuantity
          rw [ha]
          dsimp only
          rw [hu, ok_bind, hr]
          exact hexact

-- A clean line is that of an item found, at the exact product of its price and the quantity, rounded once.
theorem priceLine_amount (currency : Option String) (index : ℕ) (id : String) (entry : ParsedItem)
    (hclean : Clean index (priceLine strip previousIds found currency index id entry).2) :
    ∃ item, found entry.itemId = some item ∧
      (∀ asserted, entry.asserted = some asserted → ∃ unit, parseQuantityUnit strip asserted = .ok unit ∧
        (priceLine strip previousIds found currency index id entry).1.amount =
          halfEven (item.price * (entry.quantity.val / 10 ^ unit.scale))) ∧
      (entry.asserted = none → (priceLine strip previousIds found currency index id entry).1.amount =
        halfEven (item.price * (entry.quantity.val / 10 ^ item.quantityUnit.scale))) := by
  unfold priceLine at hclean ⊢
  cases hf : found entry.itemId with
  | none =>
      rw [hf] at hclean
      refine absurd hclean (not_clean index _ "not_found" ("Item " ++ entry.itemId ++ " was not found.") "" ?_)
      rw [String.append_empty]
      exact List.mem_cons_self
  | some item =>
      rw [hf] at hclean
      dsimp only at hclean ⊢
      refine ⟨item, rfl, fun asserted ha => ?_, fun ha => ?_⟩
      · have hsettled : Clean index (settleQuantity strip (linePath index) item entry).2 :=
          fun message hm => hclean message
            (List.mem_append_left _ (List.mem_append_left _ (List.mem_append_right _ hm)))
        obtain ⟨unit, hu, hexact⟩ := settleQuantity_exact strip index item entry asserted ha hsettled
        refine ⟨unit, hu, ?_⟩
        rw [lineAmount_eq, hexact]
      · have hplain : (settleQuantity strip (linePath index) item entry).1 = entry.quantity := by
          unfold settleQuantity
          rw [ha]
        rw [hplain, lineAmount_eq]

end Lines

end AgenticOrg.Commerce.Ucp
