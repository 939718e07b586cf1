import AgenticOrg.Commerce.Ucp.Quantity

namespace AgenticOrg.Commerce.Ucp

open Decimals
open AgenticOrg.Workflows (Json Scalar)

section Parsing

theorem intWithin_nat (low high n : ℕ) (h : low ≤ n ∧ n ≤ high) : intWithin low high (.nat n) = some ⟨n, h⟩ := by
  have hcast : (low : ℤ) ≤ (n : ℤ) ∧ (n : ℤ) ≤ high := ⟨by omega, by omega⟩
  simp only [Json.nat, intWithin, dif_pos hcast, Int.toNat_natCast]

theorem intWithin_nat_out (low high n : ℕ) (h : ¬(low ≤ n ∧ n ≤ high)) : intWithin low high (.nat n) = none := by
  have hcast : ¬((low : ℤ) ≤ (n : ℤ) ∧ (n : ℤ) ≤ high) := by omega
  simp only [Json.nat, intWithin, dif_neg hcast]

theorem parseQuantity_nat (n : ℕ) (h : 1 ≤ n ∧ n ≤ MAX_QUANTITY) : parseQuantity (.nat n) = .ok ⟨n, h⟩ := by
  unfold parseQuantity
  rw [intWithin_nat 1 MAX_QUANTITY n h]
  rfl

theorem parseQuantity_nat_out (n : ℕ) (h : ¬(1 ≤ n ∧ n ≤ MAX_QUANTITY)) :
    (parseQuantity (.nat n)).isOk = false := by
  unfold parseQuantity
  rw [intWithin_nat_out 1 MAX_QUANTITY n h]
  rfl

end Parsing

section Amounts

-- The amount is the exact product of the price and the physical quantity, rounded once.
theorem lineAmount_eq (unitPrice : ℤ) (quantity scale : ℕ) :
    lineAmount unitPrice quantity scale = halfEven (unitPrice * (quantity / 10 ^ scale : ℚ)) := by
  have hcast : (unitPrice : ℚ) * (quantity / 10 ^ scale : ℚ) =
      ((unitPrice * quantity : ℤ) : ℚ) / ((10 ^ scale : ℕ) : ℚ) := by
    push_cast
    ring
  have hpow : ((10 ^ scale : ℕ) : ℤ) = 10 ^ scale := by push_cast; rfl
  rw [hcast, halfEven_div _ _ (by positivity), hpow]
  unfold lineAmount
  dsimp only
  split_ifs <;> omega

end Amounts

section Converting

variable (asserted authoritative quantity : ℕ)

-- Steps of two scales that are the same physical quantity.
theorem physical_eq_iff (steps : ℕ) :
    (steps / 10 ^ authoritative : ℚ) = quantity / 10 ^ asserted ↔
      steps * 10 ^ asserted = quantity * 10 ^ authoritative := by
  rw [div_eq_div_iff (by positivity) (by positivity)]
  exact_mod_cast Iff.rfl

-- Conversion finds the steps that are the same physical quantity, and there are no others.
theorem convert_eq_some (steps : ℕ) :
    convert asserted authoritative quantity = some steps ↔
      steps * 10 ^ asserted = quantity * 10 ^ authoritative := by
  unfold convert
  by_cases hle : asserted ≤ authoritative
  · have hpow : 10 ^ authoritative = 10 ^ (authoritative - asserted) * 10 ^ asserted := by
      rw [← pow_add, Nat.sub_add_cancel hle]
    rw [if_pos hle, Option.some.injEq, hpow, ← mul_assoc, Nat.mul_left_inj (by positivity)]
    exact eq_comm
  · have hpow : 10 ^ asserted = 10 ^ (asserted - authoritative) * 10 ^ authoritative := by
      rw [← pow_add, Nat.sub_add_cancel (by omega)]
    rw [if_neg hle, hpow, ← mul_assoc, Nat.mul_left_inj (by positivity)]
    by_cases hmod : quantity % 10 ^ (asserted - authoritative) = 0
    · rw [if_pos hmod, Option.some.injEq]
      constructor
      · rintro rfl
        exact Nat.div_mul_cancel (Nat.dvd_of_mod_eq_zero hmod)
      · rintro rfl
        exact Nat.mul_div_cancel _ (by positivity)
    · rw [if_neg hmod]
      constructor
      · intro h
        cases h
      · rintro rfl
        exact absurd (Nat.mul_mod_left _ _) hmod

end Converting

section Reconciling

-- The scale whose steps a quantity counts: the asserted one, or the item's own.
def basis (asserted : Option QuantityUnit) (authoritative : QuantityUnit) : ℕ :=
  (asserted.getD authoritative).scale

variable (authoritative : QuantityUnit) (quantity : Quantity)

-- Same unit: the quantity in the item's own steps, or a refusal when there are none within the range.
theorem reconcile_same_unit (asserted : QuantityUnit) (hunit : asserted.unit = authoritative.unit) :
    (∃ result, reconcile (some asserted) authoritative quantity = .ok result ∧
      result.quantity.val * 10 ^ asserted.scale = quantity.val * 10 ^ authoritative.scale) ∨
    ((reconcile (some asserted) authoritative quantity).isOk = false ∧
      ∀ steps : Quantity, steps.val * 10 ^ asserted.scale ≠ quantity.val * 10 ^ authoritative.scale) := by
  unfold reconcile
  dsimp only
  by_cases hid : asserted.identity = authoritative.identity
  · rw [if_pos hid]
    have hscale : asserted.scale = authoritative.scale := congrArg Prod.snd hid
    exact .inl ⟨_, rfl, by rw [hscale]⟩
  · rw [if_neg hid, if_neg (not_not.mpr hunit)]
    cases hc : convert asserted.scale authoritative.scale quantity.val with
    | none =>
        refine .inr ⟨rfl, fun steps hsteps => ?_⟩
        rw [(convert_eq_some _ _ _ _).mpr hsteps] at hc
        cases hc
    | some converted =>
        have hexact := (convert_eq_some _ _ _ _).mp hc
        by_cases hrange : 1 ≤ converted ∧ converted ≤ MAX_QUANTITY
        · refine .inl ⟨⟨⟨converted, hrange⟩, some (convertedWarning asserted authoritative quantity.val converted)⟩,
            ?_, hexact⟩
          dsimp only
          rw [parseQuantity_nat converted hrange]
          rfl
        · refine .inr ⟨?_, fun steps hsteps => ?_⟩
          · have hout := parseQuantity_nat_out converted hrange
            dsimp only
            cases hp : parseQuantity (.nat converted) with
            | error fault => rfl
            | ok parsed =>
                rw [hp] at hout
                cases hout
          · rw [(convert_eq_some _ _ _ _).mpr hsteps] at hc
            cases hc
            exact hrange steps.property

-- What is accepted is the same physical quantity, in the item's own steps.
theorem reconcile_exact (asserted : Option QuantityUnit) (result : Reconciled)
    (h : reconcile asserted authoritative quantity = .ok result) :
    (result.quantity.val / 10 ^ authoritative.scale : ℚ) = quantity.val / 10 ^ basis asserted authoritative := by
  cases asserted with
  | none =>
      cases h
      rfl
  | some asserted =>
      by_cases hunit : asserted.unit = authoritative.unit
      · rcases reconcile_same_unit authoritative quantity asserted hunit with ⟨other, ho, hexact⟩ | ⟨hno, _⟩
        · rw [h] at ho
          cases ho
          exact (physical_eq_iff _ _ _ _).mpr hexact
        · rw [h] at hno
          cases hno
      · have hid : asserted.identity ≠ authoritative.identity := fun hid => hunit (congrArg Prod.fst hid)
        unfold reconcile at h
        dsimp only at h
        rw [if_neg hid, if_pos hunit] at h
        cases h

-- A refusal of a quantity in the item's own unit: no whole number of its steps within the range is as much.
theorem reconcile_refuses_iff (asserted : QuantityUnit) (hunit : asserted.unit = authoritative.unit) :
    (reconcile (some asserted) authoritative quantity).isOk = false ↔
      ¬∃ steps : ℕ, (steps / 10 ^ authoritative.scale : ℚ) = quantity.val / 10 ^ asserted.scale ∧
        1 ≤ steps ∧ steps ≤ MAX_QUANTITY := by
  rcases reconcile_same_unit authoritative quantity asserted hunit with ⟨result, hr, hexact⟩ | ⟨hno, hnone⟩
  · rw [hr]
    refine ⟨fun h => (by cases h), fun h => absurd ?_ h⟩
    exact ⟨_, (physical_eq_iff _ _ _ _).mpr hexact, result.quantity.property⟩
  · refine ⟨fun _ => ?_, fun _ => hno⟩
    rintro ⟨steps, hsteps, hrange⟩
    exact hnone ⟨steps, hrange⟩ ((physical_eq_iff _ _ _ _).mp hsteps)

end Reconciling

end AgenticOrg.Commerce.Ucp
