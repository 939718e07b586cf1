import AgenticOrg.Commerce.Ucp.LineItems
import AgenticOrg.Lib.Fresh

namespace AgenticOrg.Commerce.Ucp

open Fresh
open AgenticOrg.Workflows (Json Scalar)

section Labels

theorem lineId_injective : Function.Injective lineId := by
  intro j k h
  have htexts : ("li_" ++ toString j).toList = ("li_" ++ toString k).toList := congrArg String.toList h
  rw [String.toList_append, String.toList_append, Nat.toString_eq_repr, Nat.toString_eq_repr] at htexts
  have hdigits : Nat.toDigits 10 j = Nat.toDigits 10 k := by
    rw [← Nat.toList_repr, ← Nat.toList_repr]
    exact List.append_cancel_left htexts
  have hread := congrArg (fun digits => Nat.ofDigitChars 10 digits 0) hdigits
  simpa only [Nat.ofDigitChars_toDigits (show 1 < 10 by decide) (show 10 ≤ 10 by decide)] using hread

end Labels

section Choosing

variable (previousIds used : List String) (nextSeq : ℕ)

-- An id is one of the previous ones, used once, or the next number's.
theorem chooseId_cases (requested : Option String) :
    (∃ id, chooseId previousIds used nextSeq requested = (id, nextSeq) ∧ id ∈ previousIds ∧ id ∉ used) ∨
      chooseId previousIds used nextSeq requested = (lineId nextSeq, nextSeq + 1) := by
  cases requested with
  | none => exact .inr rfl
  | some id =>
      unfold chooseId
      by_cases h : id ∈ previousIds ∧ id ∉ used
      · exact .inl ⟨id, if_pos h, h⟩
      · exact .inr (if_neg h)

-- A previous id that no line has used yet is kept.
theorem chooseId_keep (id : String) (hp : id ∈ previousIds) (hu : id ∉ used) :
    chooseId previousIds used nextSeq (some id) = (id, nextSeq) := if_pos ⟨hp, hu⟩

end Choosing

section Pricing

variable (strip : String → String) (previousIds : List String) (found : String → Option CatalogItem)

@[simp] theorem priceLine_id (currency : Option String) (index : ℕ) (id : String) (entry : ParsedItem) :
    (priceLine strip previousIds found currency index id entry).1.id = id := by
  unfold priceLine
  cases found entry.itemId <;> rfl

def Priced.ids (priced : Priced) : List String := priced.items.map Line.id

-- The ids of the lines: distinct, none used before, each a previous one or a new number's.
theorem priceLines_ids (entries : List ParsedItem) (index : ℕ) (used : List String) (nextSeq : ℕ)
    (currency : Option String) (hprevious : ∀ id ∈ previousIds, Numbered lineId 1 nextSeq id)
    (hused : ∀ id ∈ used, Numbered lineId 1 nextSeq id) (hpos : 1 ≤ nextSeq) :
    let priced := priceLines strip previousIds found index used nextSeq currency entries
    nextSeq ≤ priced.nextSeq ∧ priced.ids.Nodup ∧
      ∀ id ∈ priced.ids, id ∉ used ∧ (id ∈ previousIds ∨ Numbered lineId nextSeq priced.nextSeq id) := by
  induction entries generalizing index used nextSeq currency with
  | nil => exact ⟨Nat.le_refl _, List.nodup_nil, fun id hid => absurd hid List.not_mem_nil⟩
  | cons entry rest ih =>
      obtain ⟨id, next, hchosen⟩ : ∃ id next, chooseId previousIds used nextSeq entry.lineId = (id, next) :=
        ⟨_, _, rfl⟩
      have hnext : nextSeq ≤ next ∧ id ∉ used ∧ Numbered lineId 1 next id ∧
          (id ∈ previousIds ∨ Numbered lineId nextSeq next id) := by
        rcases chooseId_cases previousIds used nextSeq entry.lineId with ⟨kept, h, hp, hu⟩ | h
        · obtain ⟨rfl, rfl⟩ := Prod.mk.inj (hchosen.symm.trans h)
          exact ⟨Nat.le_refl _, hu, hprevious id hp, .inl hp⟩
        · obtain ⟨rfl, rfl⟩ := Prod.mk.inj (hchosen.symm.trans h)
          refine ⟨by omega, fun hu => ?_, ⟨nextSeq, rfl, hpos, by omega⟩, .inr ⟨nextSeq, rfl, by omega, by omega⟩⟩
          obtain ⟨k, hk, _, hlt⟩ := hused _ hu
          have := lineId_injective hk
          omega
      obtain ⟨hle, hu, hnumbered, hfrom⟩ := hnext
      have hgrow : ∀ other, Numbered lineId 1 nextSeq other → Numbered lineId 1 next other :=
        fun other h => h.mono lineId _ _ _ _ other (Nat.le_refl _) hle
      obtain ⟨hrest, hnodup, hids⟩ := ih (index + 1) (id :: used) next
        (currency.or ((found entry.itemId).map CatalogItem.currency)) (fun other h => hgrow other (hprevious other h))
        (fun other h => by
          rcases List.mem_cons.mp h with rfl | h
          · exact hnumbered
          · exact hgrow other (hused other h)) (by omega)
      simp only [priceLines, hchosen, Priced.ids, List.map_cons, priceLine_id, List.nodup_cons, List.mem_cons,
        forall_eq_or_imp]
      refine ⟨by omega, ⟨fun hin => (hids id hin).1 List.mem_cons_self, hnodup⟩, ⟨hu, ?_⟩, fun other ho => ?_⟩
      · rcases hfrom with hp | hn
        · exact .inl hp
        · exact .inr (hn.mono lineId _ _ _ _ id (Nat.le_refl _) hrest)
      · obtain ⟨hother, hfrom⟩ := hids other ho
        refine ⟨fun h => hother (List.mem_cons_of_mem _ h), ?_⟩
        rcases hfrom with hp | hn
        · exact .inl hp
        · exact .inr (hn.mono lineId _ _ _ _ other hle (Nat.le_refl _))

end Pricing

end AgenticOrg.Commerce.Ucp
