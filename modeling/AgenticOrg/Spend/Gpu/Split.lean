import AgenticOrg.Spend.Gpu
import AgenticOrg.Lib.Lists
import Mathlib.Tactic.Linarith
import Mathlib.Tactic.Ring
import Mathlib.Algebra.BigOperators.Group.List.Lemmas

namespace AgenticOrg.Spend.Gpu

-- What the total_tokens column holds, in millionths.
def TOKEN_LIMIT : ℕ := 10 ^ 28

section Shares

variable {κ : Type}

def weightsOf (weights : List (κ × ℕ)) : List (κ × ℚ) := weights.map fun weight => (weight.1, (weight.2 : ℚ))

def weightTotal (weights : List (κ × ℕ)) : ℕ := (weights.map (·.2)).sum

-- What a split is exact for.
structure Splittable (amount : ℤ) (weights : List (κ × ℕ)) : Prop where
  positive : 0 < amount
  bounded : amount ≤ MAX_NODE_HOURS
  keys : (weights.map (·.1)).Nodup
  some : 0 < weightTotal weights
  fits : weightTotal weights < TOKEN_LIMIT

def partsOf (amount : ℤ) (weights : List (κ × ℕ)) : List (Part κ) :=
  (weightsOf weights).map (partOf amount (weightTotal weights : ℚ))

def leftOver (amount : ℤ) (weights : List (κ × ℕ)) : ℤ :=
  amount - ((partsOf amount weights).map (·.floor)).sum

theorem weight_le_total (weights : List (κ × ℕ)) (weight : κ × ℕ) (h : weight ∈ weights) :
    weight.2 ≤ weightTotal weights :=
  List.le_sum_of_mem (List.mem_map_of_mem h)

theorem total_weightsOf (weights : List (κ × ℕ)) (h : weightTotal weights < TOKEN_LIMIT) :
    Decimals.total SPLIT_DIGITS ((weightsOf weights).map fun weight => max 0 weight.2) = weightTotal weights := by
  have hmap : ((weightsOf weights).map fun weight => max 0 weight.2) =
      weights.map fun weight => ((weight.2 : ℕ) : ℚ) := by
    rw [weightsOf, List.map_map]
    exact List.map_congr_left fun weight _ => max_eq_right (Nat.cast_nonneg weight.2)
  have hsum : (weights.map fun weight => ((weight.2 : ℕ) : ℚ)).sum = weightTotal weights := by
    rw [weightTotal, Nat.cast_list_sum, List.map_map]
    rfl
  have habs : ((weights.map fun weight => ((weight.2 : ℕ) : ℚ)).map abs).sum = weightTotal weights := by
    rw [List.map_map, ← hsum]
    congr 1
    exact List.map_congr_left fun weight _ => Nat.abs_cast weight.2
  rw [hmap, ← hsum]
  refine Decimals.Exact.total_eq SPLIT_DIGITS 0 _ ⟨?_, ?_⟩
  · intro x hx
    obtain ⟨weight, _, rfl⟩ := List.mem_map.mp hx
    exact ⟨weight.2, by simp⟩
  · rw [habs, SPLIT_DIGITS, add_zero, zpow_natCast]
    have hlt : weightTotal weights < 10 ^ 38 := h.trans_le (by rw [TOKEN_LIMIT]; norm_num)
    exact_mod_cast hlt

theorem floor_partOf (amount weight total : ℕ) (key : κ) (ha : (amount : ℤ) ≤ MAX_NODE_HOURS)
    (hw : weight ≤ total) (hpos : 0 < total) (hfits : total < TOKEN_LIMIT) :
    (partOf (amount : ℤ) (total : ℚ) (key, (weight : ℚ))).floor = (amount * weight / total : ℕ) := by
  have hbound : amount ≤ 10 ^ 10 := by
    rw [MAX_NODE_HOURS] at ha
    exact_mod_cast ha
  have hproduct : amount * weight < 10 ^ 38 := by
    calc amount * weight ≤ 10 ^ 10 * total := Nat.mul_le_mul hbound hw
      _ < 10 ^ 10 * 10 ^ 28 := Nat.mul_lt_mul_of_pos_left hfits (by norm_num)
      _ = 10 ^ 38 := by norm_num
  have hexact : Decimals.rounded SPLIT_DIGITS ((amount * weight : ℕ) : ℚ) = (amount * weight : ℕ) := by
    refine Decimals.rounded_of_multiple SPLIT_DIGITS 0 _ ⟨(amount * weight : ℕ), by simp⟩ ?_
    rw [Nat.abs_cast, SPLIT_DIGITS, add_zero, zpow_natCast]
    exact_mod_cast hproduct
  unfold partOf exactShare
  dsimp only
  rw [max_eq_right (Nat.cast_nonneg weight), Int.cast_natCast, ← Nat.cast_mul, hexact]
  refine Decimals.floor_rounded_div SPLIT_DIGITS 28 _ total hpos hfits.le ?_ (by decide) (by decide)
  rw [mul_comm]
  exact Nat.mul_le_mul hw hbound

theorem sum_div_bounds (amount total : ℕ) (weights : List ℕ) (hpos : 0 < total) :
    (weights.map fun weight => amount * weight / total).sum * total ≤ amount * weights.sum ∧
      amount * weights.sum ≤ ((weights.map fun weight => amount * weight / total).sum + weights.length) * total := by
  induction weights with
  | nil => simp
  | cons weight rest ih =>
      have hlow : amount * weight / total * total ≤ amount * weight := Nat.div_mul_le_self _ _
      have hhigh : amount * weight < (amount * weight / total + 1) * total := by
        rw [mul_comm (amount * weight / total + 1)]
        exact Nat.lt_mul_div_succ _ hpos
      rw [List.map_cons, List.sum_cons, List.sum_cons, List.length_cons]
      constructor
      · nlinarith [ih.1]
      · nlinarith [ih.2]

theorem floors_eq (amount : ℕ) (weights : List (κ × ℕ)) (h : Splittable (amount : ℤ) weights) :
    (partsOf (amount : ℤ) weights).map (·.floor) =
      weights.map fun weight => ((amount * weight.2 / weightTotal weights : ℕ) : ℤ) := by
  rw [partsOf, weightsOf, List.map_map, List.map_map]
  refine List.map_congr_left fun weight hw => ?_
  exact floor_partOf amount weight.2 (weightTotal weights) weight.1 h.bounded
    (weight_le_total weights weight hw) h.some h.fits

theorem length_partsOf (amount : ℤ) (weights : List (κ × ℕ)) : (partsOf amount weights).length = weights.length := by
  rw [partsOf, weightsOf, List.length_map, List.length_map]

-- The steps left over are not more than the parts.
theorem leftOver_bounds (amount : ℤ) (weights : List (κ × ℕ)) (h : Splittable amount weights) :
    0 ≤ leftOver amount weights ∧ leftOver amount weights ≤ weights.length := by
  obtain ⟨n, rfl⟩ := Int.eq_ofNat_of_zero_le h.positive.le
  have hbounds := sum_div_bounds n (weightTotal weights) (weights.map (·.2)) h.some
  rw [List.length_map, List.map_map] at hbounds
  have hfloors : ((partsOf (n : ℤ) weights).map (·.floor)).sum =
      ((weights.map ((fun weight => n * weight / weightTotal weights) ∘ (·.2))).sum : ℕ) := by
    rw [floors_eq n weights h, Nat.cast_list_sum, List.map_map]
    rfl
  rw [leftOver, hfloors]
  have hlow := Nat.le_of_mul_le_mul_right hbounds.1 h.some
  have hhigh := Nat.le_of_mul_le_mul_right hbounds.2 h.some
  constructor <;> omega

theorem keys_partsOf (amount : ℤ) (weights : List (κ × ℕ)) :
    (partsOf amount weights).map (·.key) = weights.map (·.1) := by
  rw [partsOf, weightsOf, List.map_map, List.map_map]
  rfl

theorem mem_partsOf (amount : ℤ) (weights : List (κ × ℕ)) (weight : κ × ℕ) (h : weight ∈ weights) :
    partOf amount (weightTotal weights : ℚ) (weight.1, (weight.2 : ℚ)) ∈ partsOf amount weights :=
  List.mem_map_of_mem (List.mem_map_of_mem h)

theorem ranks_partsOf (amount : ℤ) (weights : List (κ × ℕ)) (h : (weights.map (·.1)).Nodup) :
    ((partsOf amount weights).map Part.rank).Nodup := by
  rw [← keys_partsOf amount weights] at h
  refine List.Nodup.of_map (fun rank => (ofLex rank).2) ?_
  rw [List.map_map]
  exact h

variable [LinearOrder κ]

-- The share of one of the weights.
def shareOf (amount : ℤ) (weights : List (κ × ℕ)) (weight : κ × ℕ) : ℤ :=
  Awards.award Part.rank (·.floor) (leftOver amount weights).toNat (partsOf amount weights)
    (partOf amount (weightTotal weights : ℚ) (weight.1, (weight.2 : ℚ)))

-- The split gives each weight its share.
theorem largestRemainder_eq (amount : ℤ) (weights : List (κ × ℕ)) (h : Splittable amount weights) :
    largestRemainder amount (weightsOf weights) =
      weights.map fun weight => (weight.1, shareOf amount weights weight) := by
  have hsome : ¬(((weightTotal weights : ℕ) : ℚ) ≤ 0 ∨ amount ≤ 0) := by
    have hpos : (0 : ℚ) < weightTotal weights := by exact_mod_cast h.some
    rw [not_or, not_le, not_le]
    exact ⟨hpos, h.positive⟩
  unfold largestRemainder
  dsimp only
  rw [total_weightsOf weights h.fits, if_neg hsome, sliceEnd]
  have hleft := (leftOver_bounds amount weights h).1
  unfold leftOver partsOf at hleft
  rw [if_pos hleft, weightsOf, List.map_map, List.map_map]
  exact List.map_congr_left fun weight _ => rfl

theorem sum_shareOf (amount : ℤ) (weights : List (κ × ℕ)) (h : Splittable amount weights) :
    (weights.map (shareOf amount weights)).sum = amount := by
  have hbounds := leftOver_bounds amount weights h
  have hsum := Awards.sum_award Part.rank (·.floor) (leftOver amount weights).toNat (partsOf amount weights)
    (ranks_partsOf amount weights h.keys) (by rw [length_partsOf]; omega)
  have hmap : weights.map (shareOf amount weights) = (partsOf amount weights).map
      (Awards.award Part.rank (·.floor) (leftOver amount weights).toNat (partsOf amount weights)) := by
    conv_rhs => arg 2; rw [partsOf, weightsOf]
    rw [List.map_map, List.map_map]
    rfl
  rw [hmap, hsum, Int.toNat_of_nonneg hbounds.1, leftOver]
  omega

theorem shareOf_nonneg (amount : ℤ) (weights : List (κ × ℕ)) (h : Splittable amount weights) (weight : κ × ℕ)
    (hw : weight ∈ weights) : 0 ≤ shareOf amount weights weight := by
  obtain ⟨n, rfl⟩ := Int.eq_ofNat_of_zero_le h.positive.le
  have hfloor := floor_partOf n weight.2 (weightTotal weights) weight.1 h.bounded
    (weight_le_total weights weight hw) h.some h.fits
  have hnonneg : (0 : ℤ) ≤ (n * weight.2 / weightTotal weights : ℕ) := Int.natCast_nonneg _
  rw [shareOf, Awards.award, hfloor]
  split_ifs <;> linarith

-- Of two splits by the same total, none gives less to every weight they share than the other gives to some.
theorem shareOf_nested (amount : ℤ) (xs ys : List (κ × ℕ)) (hx : Splittable amount xs)
    (hy : Splittable amount ys) (ht : weightTotal xs = weightTotal ys) :
    (∀ weight ∈ xs, weight ∈ ys → shareOf amount xs weight ≤ shareOf amount ys weight) ∨
      (∀ weight ∈ xs, weight ∈ ys → shareOf amount ys weight ≤ shareOf amount xs weight) := by
  refine (Awards.award_nested Part.rank (·.floor) (leftOver amount xs).toNat (leftOver amount ys).toNat
    (partsOf amount xs) (partsOf amount ys) (ranks_partsOf amount xs hx.keys)
    (ranks_partsOf amount ys hy.keys)).imp ?_ ?_
  · intro h weight hwx hwy
    unfold shareOf
    rw [← ht]
    exact h _ (mem_partsOf amount xs weight hwx) (ht ▸ mem_partsOf amount ys weight hwy)
  · intro h weight hwx hwy
    unfold shareOf
    rw [← ht]
    exact h _ (mem_partsOf amount xs weight hwx) (ht ▸ mem_partsOf amount ys weight hwy)

end Shares

section Calls

theorem sum_positive (shares : List ℤ) (h : ∀ share ∈ shares, 0 ≤ share) :
    (shares.filter fun share => 0 < share).sum = shares.sum := by
  have hsum := Lists.sum_filter id (fun share => 0 < share) shares fun share hs hz => by
    have hnonneg := h share hs
    rw [decide_eq_true_eq] at hz
    rw [id]
    omega
  rwa [List.map_id, List.map_id] at hsum

theorem quantities_splitShare (share : ℤ) (calls : List (String × ℚ)) (priced : Priced) :
    (splitShare share calls priced).map (·.quantity) =
      ((largestRemainder share calls).map (·.2)).filter fun quantity => 0 < quantity := by
  rw [splitShare, List.map_map, List.filter_map]
  rfl

theorem refs_splitShare (share : ℤ) (calls : List (String × ℚ)) (priced : Priced) :
    ((splitShare share calls priced).map (·.sourceRef)).Sublist ((largestRemainder share calls).map (·.1)) := by
  rw [splitShare, List.map_map]
  exact List.filter_sublist.map Prod.fst

-- The records of a share come to the share.
theorem sum_splitShare (share : ℤ) (calls : List (String × ℕ)) (priced : Priced) (h : Splittable share calls) :
    ((splitShare share (weightsOf calls) priced).map (·.quantity)).sum = share := by
  have hshares : (largestRemainder share (weightsOf calls)).map (·.2) = calls.map (shareOf share calls) := by
    rw [largestRemainder_eq share calls h, List.map_map]
    rfl
  rw [quantities_splitShare, hshares, sum_positive, sum_shareOf share calls h]
  intro x hx
  obtain ⟨call, hc, rfl⟩ := List.mem_map.mp hx
  exact shareOf_nonneg share calls h call hc

theorem nodup_splitShare (share : ℤ) (calls : List (String × ℕ)) (priced : Priced) (h : Splittable share calls) :
    ((splitShare share (weightsOf calls) priced).map (·.sourceRef)).Nodup := by
  refine (refs_splitShare share (weightsOf calls) priced).nodup ?_
  rw [largestRemainder_eq share calls h, List.map_map]
  exact h.keys

theorem writeEvents_fresh (records events : List GpuRecord)
    (h : ((records ++ events).map (·.sourceRef)).Nodup) : writeEvents records events = records ++ events := by
  induction events generalizing records with
  | nil => exact (List.append_nil records).symm
  | cons event rest ih =>
      have hfresh : event.sourceRef ∉ records.map (·.sourceRef) := by
        rw [List.map_append, List.nodup_append] at h
        exact fun hm => h.2.2 _ hm _ List.mem_cons_self rfl
      unfold writeEvents
      rw [List.foldl_cons, if_neg hfresh]
      have hstep := ih (records ++ [event]) (by rwa [List.append_assoc, List.singleton_append])
      rw [List.append_assoc, List.singleton_append] at hstep
      exact hstep

-- Adding up call by call comes to the sum of all.
theorem sum_by_ref (records : List TokenRecord) (refs : List String) (hd : refs.Nodup)
    (h : ∀ record ∈ records, record.sourceRef ∈ refs) :
    (refs.map fun ref => ((records.filter (·.sourceRef = ref)).map (·.quantity)).sum).sum =
      (records.map (·.quantity)).sum := by
  induction records with
  | nil => simp
  | cons record rest ih =>
      have hrest := ih fun other ho => h other (List.mem_cons_of_mem _ ho)
      have hsplit : ∀ ref, ((((record :: rest).filter (·.sourceRef = ref)).map (·.quantity)).sum) =
          (if record.sourceRef = ref then record.quantity else 0) +
            ((rest.filter (·.sourceRef = ref)).map (·.quantity)).sum := by
        intro ref
        by_cases he : record.sourceRef = ref
        · simp [he]
        · simp [he]
      have hone : (refs.map fun ref => if record.sourceRef = ref then record.quantity else 0).sum =
          record.quantity := by
        rw [← List.sum_toFinset _ hd, Finset.sum_ite_eq, if_pos]
        exact List.mem_toFinset.mpr (h record List.mem_cons_self)
      rw [List.map_congr_left fun ref _ => hsplit ref, List.sum_map_add, hone, hrest, List.map_cons,
        List.sum_cons]

theorem sum_filter_positive (calls : List (String × ℕ)) :
    ((calls.filter fun call => 0 < call.2).map (·.2)).sum = (calls.map (·.2)).sum := by
  induction calls with
  | nil => rfl
  | cons call rest ih =>
      rw [List.filter_cons, List.map_cons, List.sum_cons, ← ih]
      split_ifs with hpos
      · rw [List.map_cons, List.sum_cons]
      · rw [decide_eq_true_eq] at hpos
        omega

theorem weightTotal_chargedCalls (tokens : List TokenRecord) :
    weightTotal (chargedCalls tokens) = chargedTokens tokens := by
  have hnodup : (((tokens.filter fun record => !record.pricedAboveZero).map (·.sourceRef)).dedup.insertionSort
      (· ≤ ·)).Nodup := (List.perm_insertionSort _ _).nodup_iff.mpr (List.nodup_dedup _)
  rw [weightTotal, chargedCalls, sum_filter_positive, List.map_map, chargedTokens,
    ← sum_by_ref _ _ hnodup ?_]
  · rfl
  · intro record hr
    rw [List.mem_insertionSort, List.mem_dedup]
    exact List.mem_map_of_mem hr

theorem keys_chargedCalls (tokens : List TokenRecord) : ((chargedCalls tokens).map (·.1)).Nodup := by
  have hsub : ((chargedCalls tokens).map (·.1)).Sublist
      (((tokens.filter fun record => !record.pricedAboveZero).map (·.sourceRef)).dedup.insertionSort (· ≤ ·)) := by
    refine (List.filter_sublist.map Prod.fst).trans ?_
    simp [Function.comp_def]
  exact hsub.nodup ((List.perm_insertionSort _ _).nodup_iff.mpr (List.nodup_dedup _))

end Calls

end AgenticOrg.Spend.Gpu
