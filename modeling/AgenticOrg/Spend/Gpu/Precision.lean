import AgenticOrg.Lib.Award.Apportion
import AgenticOrg.Lib.Decimal.Bounds
import AgenticOrg.Spend.Gpu.Split
import Mathlib.Tactic.FieldSimp

namespace AgenticOrg.Spend.Gpu

open Decimals Awards

section Definitions

variable {κ : Type} [LinearOrder κ]

-- `largest_remainder` for a step of so many decimal places. The weights are sorted by remainder and key, and
-- otherwise stay as they come.
def indexed (weights : List (κ × ℚ)) : List ((κ ×ₗ ℕ) × ℚ) :=
  weights.zipIdx.map fun weight => (toLex (weight.1.1, weight.2), weight.1.2)

def largestRemainderIn (places : ℕ) (total : ℚ) (weights : List (κ × ℚ)) : List (κ × ℚ) :=
  (largestRemainder (halfEven (total * 10 ^ places)) (indexed weights)).map fun share =>
    ((ofLex share.1).1, (share.2 : ℚ) / 10 ^ places)

def positiveWeight (weight : κ × ℚ) : ℚ := max 0 weight.2

def weightSum (weights : List (κ × ℚ)) : ℚ := (weights.map positiveWeight).sum

-- The exact share of a total.
def properShare (total : ℚ) (weights : List (κ × ℚ)) (weight : κ × ℚ) : ℚ :=
  total * positiveWeight weight / weightSum weights

def MAX_WEIGHTS : ℕ := 10 ^ 12

end Definitions

section Quotas

variable {κ : Type}

-- Weights whose sum has no more than 38 digits.
structure Weighable (weights : List (κ × ℚ)) : Prop where
  multiples : ∀ weight ∈ weights, Multiple (-6) weight.2
  below : ∀ weight ∈ weights, weight.2 < 10 ^ 18
  length_le : weights.length ≤ MAX_WEIGHTS

-- A split that 38 digits are enough for, in steps of the total.
structure Divisible (amount : ℤ) (weights : List (κ × ℚ)) : Prop extends Weighable weights where
  positive : 0 < amount
  bounded : amount ≤ 10 ^ 24
  keys : (weights.map (·.1)).Nodup
  some : ∃ weight ∈ weights, 0 < weight.2

variable (amount : ℤ) (weights : List (κ × ℚ))

theorem positiveWeight_nonneg (weight : κ × ℚ) : 0 ≤ positiveWeight weight := le_max_left _ _

theorem positiveWeight_multiple (weight : κ × ℚ) (h : Multiple (-6) weight.2) :
    Multiple (-6) (positiveWeight weight) := by
  unfold positiveWeight
  rcases max_choice 0 weight.2 with hmax | hmax <;> rw [hmax]
  · exact Multiple.zero _
  · exact h

theorem positiveWeight_le_sum (weight : κ × ℚ) (h : weight ∈ weights) :
    positiveWeight weight ≤ weightSum weights := by
  refine List.single_le_sum (fun x hx => ?_) _ (List.mem_map_of_mem h)
  obtain ⟨other, _, rfl⟩ := List.mem_map.mp hx
  exact positiveWeight_nonneg other

variable {amount weights}

theorem weightSum_pos (hsome : ∃ weight ∈ weights, 0 < weight.2) : 0 < weightSum weights := by
  obtain ⟨weight, hw, hpos⟩ := hsome
  exact lt_of_lt_of_le (lt_max_of_lt_right hpos) (positiveWeight_le_sum weights weight hw)

theorem Divisible.sum_pos (h : Divisible amount weights) : 0 < weightSum weights := weightSum_pos h.some

theorem Weighable.sum_exact (h : Weighable weights) :
    Decimals.total SPLIT_DIGITS (weights.map fun weight => max 0 weight.2) = weightSum weights := by
  refine Exact.total_eq SPLIT_DIGITS (-6) _ ⟨?_, ?_⟩
  · intro x hx
    obtain ⟨weight, hw, rfl⟩ := List.mem_map.mp hx
    exact positiveWeight_multiple weight (h.multiples weight hw)
  · rw [List.map_map]
    have hle := sum_le_length_mul weights (abs ∘ fun weight => max 0 weight.2) (10 ^ 18) fun weight hw => by
      rw [Function.comp_apply, abs_of_nonneg (le_max_left _ _)]
      exact max_le (by norm_num) (h.below weight hw).le
    have hlength : (weights.length : ℚ) ≤ 10 ^ 12 := by exact_mod_cast h.length_le
    refine hle.trans_lt ?_
    rw [SPLIT_DIGITS]
    norm_num
    linarith

theorem Divisible.sum_proper (h : Divisible amount weights) :
    (weights.map (properShare (amount : ℚ) weights)).sum = amount := by
  have hmap : weights.map (properShare (amount : ℚ) weights) =
      weights.map fun weight => (amount / weightSum weights) * positiveWeight weight :=
    List.map_congr_left fun weight _ => by rw [properShare]; ring
  rw [hmap, List.sum_map_mul_left]
  exact div_mul_cancel₀ _ h.sum_pos.ne'

theorem Divisible.proper_bounds (h : Divisible amount weights) (weight : κ × ℚ) (hw : weight ∈ weights) :
    0 ≤ properShare (amount : ℚ) weights weight ∧ properShare (amount : ℚ) weights weight ≤ 10 ^ 24 := by
  have hpos := h.sum_pos
  have hamount : (0 : ℚ) < amount := by exact_mod_cast h.positive
  have hbound : (amount : ℚ) ≤ 10 ^ 24 := by exact_mod_cast h.bounded
  refine ⟨div_nonneg (mul_nonneg hamount.le (positiveWeight_nonneg weight)) hpos.le, ?_⟩
  rw [properShare, div_le_iff₀ hpos]
  exact mul_le_mul hbound (positiveWeight_le_sum weights weight hw) (positiveWeight_nonneg weight) (by norm_num)

-- Two roundings, each of half a unit of the 38th digit.
theorem exactShare_close (amount sum weight : ℚ) (ha : 0 ≤ amount) (hs : 0 < sum) (hw : 0 ≤ weight) :
    |rounded SPLIT_DIGITS (rounded SPLIT_DIGITS (amount * weight) / sum) - amount * weight / sum| ≤
      amount * weight / sum * (2 / 10 ^ 37) := by
  have hproduct := abs_rounded_sub_le SPLIT_DIGITS (amount * weight)
  have hquotient := abs_rounded_sub_le SPLIT_DIGITS (rounded SPLIT_DIGITS (amount * weight) / sum)
  have hnonneg : 0 ≤ amount * weight := mul_nonneg ha hw
  have hkept := rounded_nonneg SPLIT_DIGITS _ hnonneg
  rw [abs_of_nonneg hnonneg] at hproduct
  rw [abs_of_nonneg (div_nonneg hkept hs.le)] at hquotient
  generalize rounded SPLIT_DIGITS (amount * weight) = product at hproduct hquotient hkept ⊢
  generalize rounded SPLIT_DIGITS (product / sum) = quotient at hquotient ⊢
  have hunit : (10 : ℚ) ^ (1 - SPLIT_DIGITS : ℤ) = 1 / 10 ^ 37 := by
    rw [SPLIT_DIGITS]
    norm_num
  rw [hunit] at hproduct hquotient
  have hle : product / sum ≤ amount * weight / sum * (1 + 1 / 10 ^ 37) := by
    rw [div_le_iff₀ hs]
    have hcancel : amount * weight / sum * (1 + 1 / 10 ^ 37) * sum = amount * weight * (1 + 1 / 10 ^ 37) := by
      field_simp
    rw [hcancel]
    linarith [(abs_le.mp hproduct).2]
  have hscaled : |product / sum - amount * weight / sum| ≤ amount * weight / sum * (1 / 10 ^ 37) / 2 := by
    rw [← sub_div, abs_div, abs_of_pos hs, div_le_iff₀ hs]
    have hcancel : amount * weight / sum * (1 / 10 ^ 37) / 2 * sum = amount * weight * (1 / 10 ^ 37) / 2 := by
      field_simp
    rw [hcancel]
    exact hproduct
  have hproper : 0 ≤ amount * weight / sum := div_nonneg hnonneg hs.le
  generalize amount * weight / sum = proper at hle hscaled hproper ⊢
  have hsplit : quotient - proper = (quotient - product / sum) + (product / sum - proper) := by ring
  rw [hsplit]
  refine (abs_add_le _ _).trans ?_
  linarith

end Quotas

section Apportioning

variable {κ : Type} (amount : ℤ) (weights : List (κ × ℚ))

def quotaOf (weight : κ × ℚ) : ℚ := exactShare amount (weightSum weights) (positiveWeight weight)

def rankOf (weight : κ × ℚ) : ℚ ×ₗ κ := (partOf amount (weightSum weights) weight).rank

def ROUNDING_ERROR : ℚ := 2 / 10 ^ 13

theorem rankOf_eq (weight : κ × ℚ) :
    rankOf amount weights weight = toLex (-Int.fract (quotaOf amount weights weight), weight.1) := rfl

theorem rankOf_of_fract_lt [LinearOrder κ] (a b : κ × ℚ)
    (h : Int.fract (quotaOf amount weights b) < Int.fract (quotaOf amount weights a)) :
    rankOf amount weights a < rankOf amount weights b := by
  rw [rankOf_eq, rankOf_eq]
  exact Prod.Lex.toLex_lt_toLex.mpr (.inl (neg_lt_neg h))

theorem fract_le_of_rankOf_lt [LinearOrder κ] (a b : κ × ℚ) (h : rankOf amount weights a < rankOf amount weights b) :
    Int.fract (quotaOf amount weights b) ≤ Int.fract (quotaOf amount weights a) := by
  by_contra hlt
  exact lt_asymm h (rankOf_of_fract_lt amount weights b a (not_le.mp hlt))

variable {amount weights}

theorem quotaOf_close (h : Divisible amount weights) (weight : κ × ℚ) :
    |quotaOf amount weights weight - properShare (amount : ℚ) weights weight| ≤
      properShare (amount : ℚ) weights weight * (2 / 10 ^ 37) :=
  exactShare_close amount (weightSum weights) (positiveWeight weight) (by exact_mod_cast h.positive.le) h.sum_pos
    (positiveWeight_nonneg weight)

theorem Divisible.apportions [LinearOrder κ] (h : Divisible amount weights) :
    Apportions (rankOf amount weights) (quotaOf amount weights) (properShare (amount : ℚ) weights) weights amount
      ROUNDING_ERROR where
  ranks := by
    refine List.Nodup.of_map (fun rank => (ofLex rank).2) ?_
    rw [List.map_map]
    exact h.keys
  byRemainder := fun a _ b _ => fract_le_of_rankOf_lt amount weights a b
  close := by
    intro weight hw
    have hbound := (h.proper_bounds weight hw).2
    refine (quotaOf_close h weight).trans ?_
    rw [ROUNDING_ERROR]
    linarith
  sum := h.sum_proper
  small := by
    have hlength : (weights.length : ℚ) ≤ 10 ^ 12 := by exact_mod_cast h.length_le
    rw [ROUNDING_ERROR]
    linarith

-- The rounded quotas of different weights differ.
theorem quotaOf_lt (h : Divisible amount weights) (a b : κ × ℚ) (ha : a ∈ weights) (hb : b ∈ weights)
    (hlt : positiveWeight a < positiveWeight b) : quotaOf amount weights a < quotaOf amount weights b := by
  have hsum := h.sum_pos
  have hamount : (0 : ℚ) < amount := by exact_mod_cast h.positive
  -- the weights are a millionth apart and below 10^18
  obtain ⟨m, hm⟩ := positiveWeight_multiple a (h.multiples a ha)
  obtain ⟨n, hn⟩ := positiveWeight_multiple b (h.multiples b hb)
  have hgap : positiveWeight a + 10 ^ (-6 : ℤ) ≤ positiveWeight b := by
    rw [hm, hn] at hlt ⊢
    have hint : m < n := by exact_mod_cast lt_of_mul_lt_mul_right hlt (by norm_num)
    have hcast : (m : ℚ) + 1 ≤ n := by exact_mod_cast hint
    calc (m : ℚ) * 10 ^ (-6 : ℤ) + 10 ^ (-6 : ℤ) = (m + 1) * 10 ^ (-6 : ℤ) := by ring
      _ ≤ n * 10 ^ (-6 : ℤ) := mul_le_mul_of_nonneg_right hcast (by positivity)
  have hbound : positiveWeight b < 10 ^ 18 := max_lt (by norm_num) (h.below b hb)
  have hproper : ∀ weight : κ × ℚ, properShare (amount : ℚ) weights weight =
      amount / weightSum weights * positiveWeight weight := fun weight => by
    rw [properShare]
    ring
  have hrate : 0 < amount / weightSum weights := div_pos hamount hsum
  have hlow := (abs_le.mp (quotaOf_close h a)).2
  have hhigh := (abs_le.mp (quotaOf_close h b)).1
  rw [hproper] at hlow hhigh
  generalize (amount : ℚ) / weightSum weights = rate at hrate hlow hhigh
  have hscaled := mul_le_mul_of_nonneg_left hgap hrate.le
  have hsmall := mul_lt_mul_of_pos_left hbound hrate
  have hlarge := mul_lt_mul_of_pos_left hlt hrate
  norm_num at hscaled
  linarith

variable [LinearOrder κ]

def awardOf (amount : ℤ) (weights : List (κ × ℚ)) (weight : κ × ℚ) : ℤ :=
  award (rankOf amount weights) (fun weight => ⌊quotaOf amount weights weight⌋)
    (Awards.leftOver (quotaOf amount weights) amount weights).toNat weights weight

theorem awardOf_nonneg (h : Divisible amount weights) (weight : κ × ℚ) : 0 ≤ awardOf amount weights weight := by
  have hamount : (0 : ℚ) ≤ amount := by exact_mod_cast h.positive.le
  have hquota : 0 ≤ quotaOf amount weights weight := by
    refine rounded_nonneg _ _ (div_nonneg (rounded_nonneg _ _ ?_) h.sum_pos.le)
    exact mul_nonneg hamount (positiveWeight_nonneg weight)
  have hfloor : 0 ≤ ⌊quotaOf amount weights weight⌋ := Int.floor_nonneg.mpr hquota
  dsimp only [awardOf, award]
  split_ifs <;> omega

-- A weight of nothing has no remainder, so nothing left over goes to it.
theorem awardOf_nothing (h : Divisible amount weights) (weight : κ × ℚ) (hw : weight.2 ≤ 0) :
    awardOf amount weights weight = 0 := by
  have hquota : quotaOf amount weights weight = 0 := by
    have hzero : positiveWeight weight = 0 := max_eq_left hw
    rw [quotaOf, exactShare, hzero, mul_zero]
    simp [rounded, halfEven]
  have hout : weight ∉ first (rankOf amount weights)
      (Awards.leftOver (quotaOf amount weights) amount weights).toNat weights := by
    intro hin
    have hfract := h.apportions.awarded _ _ _ _ _ _ weight hin
    rw [hquota, Int.fract_zero, ROUNDING_ERROR] at hfract
    norm_num at hfract
  dsimp only [awardOf, award]
  rw [if_neg hout, hquota, Int.floor_zero, add_zero]

theorem awardOf_mono (h : Divisible amount weights) (a b : κ × ℚ) (ha : a ∈ weights) (hb : b ∈ weights)
    (hlt : a.2 < b.2) : awardOf amount weights a ≤ awardOf amount weights b := by
  by_cases hpos : 0 < b.2
  · have hpositive : positiveWeight a < positiveWeight b :=
      max_lt (lt_max_of_lt_right hpos) (hlt.trans_le (le_max_right 0 b.2))
    exact h.apportions.award_mono _ _ _ _ _ _ (rankOf_of_fract_lt amount weights) a b hb
      (quotaOf_lt h a b ha hb hpositive)
  · rw [awardOf_nothing h a (by linarith), awardOf_nothing h b (by linarith)]

-- The split gives each weight its award.
theorem largestRemainder_award (h : Divisible amount weights) :
    largestRemainder amount weights = weights.map fun weight => (weight.1, awardOf amount weights weight) := by
  have hleft := h.apportions.left_nonneg
  have hsome : ¬(weightSum weights ≤ 0 ∨ amount ≤ 0) := by
    rw [not_or, not_le, not_le]
    exact ⟨h.sum_pos, h.positive⟩
  have hfloors : ((weights.map (partOf amount (weightSum weights))).map (·.floor)).sum =
      (weights.map fun weight => ⌊quotaOf amount weights weight⌋).sum := by
    rw [List.map_map]
    rfl
  unfold largestRemainder
  dsimp only
  rw [h.sum_exact, if_neg hsome, hfloors, sliceEnd]
  unfold Awards.leftOver at hleft
  rw [if_pos hleft, List.map_map]
  refine List.map_congr_left fun weight hw => ?_
  rw [awardOf, Function.comp_apply, award_map Part.rank (partOf amount (weightSum weights)) (·.floor) _ weights weight]
  · rfl
  · intro other ho hsame
    have hkey : other.1 = weight.1 := congrArg Part.key hsame
    exact List.inj_on_of_nodup_map h.keys ho hw hkey

end Apportioning

section Decimals

variable {κ : Type} (places : ℕ) (total : ℚ) (weights : List (κ × ℚ))

theorem map_indexed : ((indexed weights).map fun weight => ((ofLex weight.1).1, weight.2)) = weights := by
  rw [indexed, List.map_map]
  exact List.zipIdx_map_fst 0 weights

theorem mem_of_indexed (weight : (κ ×ₗ ℕ) × ℚ) (hw : weight ∈ indexed weights) :
    ((ofLex weight.1).1, weight.2) ∈ weights := by
  have hmem := List.mem_map_of_mem (f := fun weight : (κ ×ₗ ℕ) × ℚ => ((ofLex weight.1).1, weight.2)) hw
  rwa [map_indexed] at hmem

theorem indexed_nodup : ((indexed weights).map (·.1)).Nodup := by
  refine List.Nodup.of_map (fun key => (ofLex key).2) ?_
  rw [indexed, List.map_map, List.map_map]
  have hindex : (weights.zipIdx.map Prod.snd) = List.range' 0 weights.length := List.zipIdx_map_snd 0 weights
  exact hindex ▸ List.nodup_range'

theorem weightSum_indexed : weightSum (indexed weights) = weightSum weights := by
  conv_rhs => rw [← map_indexed weights]
  rw [weightSum, weightSum, List.map_map]
  rfl

theorem weighable_indexed (h : Weighable weights) : Weighable (indexed weights) where
  multiples := fun weight hw => h.multiples _ (mem_of_indexed weights weight hw)
  below := fun weight hw => h.below _ (mem_of_indexed weights weight hw)
  length_le := by
    rw [indexed, List.length_map, List.length_zipIdx]
    exact h.length_le

variable {places total weights}

theorem Weighable.divisible (hw : Weighable weights) (hplaces : places ≤ 10) (hmagnitude : |total| < 10 ^ 14)
    (hpos : 0 < halfEven (total * 10 ^ places)) (hsome : ∃ weight ∈ weights, 0 < weight.2) :
    Divisible (halfEven (total * 10 ^ places)) (indexed weights) where
  toWeighable := weighable_indexed weights hw
  positive := hpos
  bounded := by
    refine halfEven_le _ _ ?_
    push_cast
    calc total * 10 ^ places ≤ 10 ^ 14 * 10 ^ places :=
          mul_le_mul_of_nonneg_right (abs_lt.mp hmagnitude).2.le (by positivity)
      _ ≤ 10 ^ 14 * 10 ^ 10 := by gcongr; norm_num
      _ = 10 ^ 24 := by norm_num
  keys := indexed_nodup weights
  some := by
    obtain ⟨weight, hmem, hpositive⟩ := hsome
    rw [← map_indexed weights] at hmem
    obtain ⟨entry, hentry, rfl⟩ := List.mem_map.mp hmem
    exact ⟨entry, hentry, hpositive⟩

variable [LinearOrder κ]

theorem largestRemainderIn_map (share : (κ ×ₗ ℕ) × ℚ → ℤ)
    (h : largestRemainder (halfEven (total * 10 ^ places)) (indexed weights) =
      (indexed weights).map fun weight => (weight.1, share weight)) :
    largestRemainderIn places total weights =
      (indexed weights).map fun weight => ((ofLex weight.1).1, (share weight : ℚ) / 10 ^ places) := by
  rw [largestRemainderIn, h, List.map_map]
  rfl

theorem zip_largestRemainderIn (share : (κ ×ₗ ℕ) × ℚ → ℤ)
    (h : largestRemainder (halfEven (total * 10 ^ places)) (indexed weights) =
      (indexed weights).map fun weight => (weight.1, share weight)) :
    weights.zip (largestRemainderIn places total weights) = (indexed weights).map fun weight =>
      (((ofLex weight.1).1, weight.2), ((ofLex weight.1).1, (share weight : ℚ) / 10 ^ places)) := by
  conv_lhs => rw [← map_indexed weights, map_indexed weights]
  rw [largestRemainderIn_map share h]
  conv_lhs => arg 1; rw [← map_indexed weights]
  exact List.zip_map' ..

-- What a split is to be: of each weight and its share.
structure SharesFairly (places : ℕ) (total : ℚ) (weights shares : List (κ × ℚ)) : Prop where
  keys : shares.map (·.1) = weights.map (·.1)
  nonneg : ∀ share ∈ shares, 0 ≤ share.2
  sum : 0 ≤ total → (∃ weight ∈ weights, 0 < weight.2) → (shares.map (·.2)).sum = quantized places total
  nothing : ∀ pair ∈ weights.zip shares, pair.1.2 ≤ 0 → pair.2.2 = 0
  close : 0 ≤ total → (∃ weight ∈ weights, 0 < weight.2) → ∀ pair ∈ weights.zip shares,
    |pair.2.2 - properShare (quantized places total) weights pair.1| < 1 / 10 ^ places
  mono : ∀ a ∈ weights.zip shares, ∀ b ∈ weights.zip shares, a.1.2 < b.1.2 → a.2.2 ≤ b.2.2

-- No share is given where there is nothing to give or no weight to give it to.
theorem sharesFairly_nothing (hw : Weighable weights)
    (hnone : halfEven (total * 10 ^ places) ≤ 0 ∨ ¬∃ weight ∈ weights, 0 < weight.2) :
    SharesFairly places total weights (largestRemainderIn places total weights) := by
  have hzero : largestRemainder (halfEven (total * 10 ^ places)) (indexed weights) =
      (indexed weights).map fun weight => (weight.1, (0 : ℤ)) := by
    have hstop : weightSum (indexed weights) ≤ 0 ∨ halfEven (total * 10 ^ places) ≤ 0 := by
      refine hnone.symm.imp (fun hno => ?_) id
      rw [weightSum_indexed, weightSum]
      refine (List.sum_eq_zero fun x hx => ?_).le
      obtain ⟨weight, hmem, rfl⟩ := List.mem_map.mp hx
      exact max_eq_left (not_lt.mp fun hpos => hno ⟨weight, hmem, hpos⟩)
    unfold largestRemainder
    dsimp only
    rw [(weighable_indexed weights hw).sum_exact, if_pos hstop]
  have hmap := largestRemainderIn_map (fun _ => 0) hzero
  have hzip := zip_largestRemainderIn (fun _ => 0) hzero
  have hamount : 0 ≤ total → (∃ weight ∈ weights, 0 < weight.2) → quantized places total = 0 := by
    intro hpos hsome
    have hle := hnone.resolve_right (not_not.mpr hsome)
    have hge : 0 ≤ halfEven (total * 10 ^ places) :=
      le_halfEven 0 _ (by exact_mod_cast mul_nonneg hpos (by positivity : (0 : ℚ) ≤ 10 ^ places))
    rw [quantized, le_antisymm hle hge]
    simp
  have hshare : ∀ pair ∈ weights.zip (largestRemainderIn places total weights), pair.2.2 = 0 := by
    intro pair hpair
    rw [hzip] at hpair
    obtain ⟨weight, _, rfl⟩ := List.mem_map.mp hpair
    simp
  refine ⟨?_, ?_, ?_, fun pair hpair _ => hshare pair hpair, ?_, ?_⟩
  · rw [hmap, List.map_map]
    conv_rhs => rw [← map_indexed weights]
    rw [List.map_map]
    rfl
  · intro share hs
    rw [hmap] at hs
    obtain ⟨weight, _, rfl⟩ := List.mem_map.mp hs
    simp
  · intro hpos hsome
    rw [hamount hpos hsome, hmap, List.map_map]
    refine List.sum_eq_zero fun x hx => ?_
    obtain ⟨weight, _, rfl⟩ := List.mem_map.mp hx
    simp
  · intro hpos hsome pair hpair
    rw [hshare pair hpair, hamount hpos hsome, properShare]
    simp
  · intro a ha b hb _
    rw [hshare a ha, hshare b hb]

theorem sharesFairly_some (hplaces : places ≤ 10) (hmagnitude : |total| < 10 ^ 14) (hw : Weighable weights)
    (hpos : 0 < halfEven (total * 10 ^ places)) (hsome : ∃ weight ∈ weights, 0 < weight.2) :
    SharesFairly places total weights (largestRemainderIn places total weights) := by
  have hdivisible := hw.divisible hplaces hmagnitude hpos hsome
  have hawards := largestRemainder_award hdivisible
  have hmap := largestRemainderIn_map _ hawards
  have hzip := zip_largestRemainderIn _ hawards
  have hten : (0 : ℚ) < 10 ^ places := by positivity
  generalize hamount : halfEven (total * 10 ^ places) = amount at *
  have hquantized : quantized places total = amount / 10 ^ places := by rw [quantized, hamount]
  have hproper : ∀ weight ∈ indexed weights,
      properShare (quantized places total) weights ((ofLex weight.1).1, weight.2) =
        properShare (amount : ℚ) (indexed weights) weight / 10 ^ places := by
    intro weight _
    rw [properShare, properShare, weightSum_indexed, hquantized]
    unfold positiveWeight
    ring
  refine ⟨?_, ?_, fun _ _ => ?_, ?_, fun _ _ => ?_, ?_⟩
  · rw [hmap, List.map_map]
    conv_rhs => rw [← map_indexed weights]
    rw [List.map_map]
    rfl
  · intro share hs
    rw [hmap] at hs
    obtain ⟨weight, _, rfl⟩ := List.mem_map.mp hs
    exact div_nonneg (by exact_mod_cast awardOf_nonneg hdivisible weight) hten.le
  · have hsum : ((indexed weights).map fun weight => (awardOf amount (indexed weights) weight : ℚ)).sum = amount := by
      have hint : (((indexed weights).map (awardOf amount (indexed weights))).sum : ℤ) = amount :=
        hdivisible.apportions.sum_award
      have hcast := congrArg (Int.cast : ℤ → ℚ) hint
      rwa [Int.cast_list_sum, List.map_map] at hcast
    rw [hmap, List.map_map, hquantized, ← hsum, div_eq_mul_inv, ← List.sum_map_mul_right]
    rfl
  · intro pair hpair hzero
    rw [hzip] at hpair
    obtain ⟨weight, hmem, rfl⟩ := List.mem_map.mp hpair
    dsimp only at hzero ⊢
    rw [awardOf_nothing hdivisible weight hzero, Int.cast_zero, zero_div]
  · intro pair hpair
    rw [hzip] at hpair
    obtain ⟨weight, hmem, rfl⟩ := List.mem_map.mp hpair
    have hclose := hdivisible.apportions.award_close _ _ _ _ _ _ weight hmem
    rw [hproper weight hmem, ← sub_div, abs_div, abs_of_pos hten]
    exact div_lt_div_of_pos_right hclose hten
  · intro a ha b hb hlt
    rw [hzip] at ha hb
    obtain ⟨first, hfirst, rfl⟩ := List.mem_map.mp ha
    obtain ⟨second, hsecond, rfl⟩ := List.mem_map.mp hb
    refine div_le_div_of_nonneg_right ?_ hten.le
    exact_mod_cast awardOf_mono hdivisible first second hfirst hsecond hlt

-- The split of any total among weights that 38 digits are enough for.
theorem largestRemainderIn_fair (hplaces : places = 6 ∨ places = 10) (hmagnitude : |total| < 10 ^ 14)
    (hmultiples : ∀ weight ∈ weights, Multiple (-6) weight.2) (hbelow : ∀ weight ∈ weights, weight.2 < 10 ^ 18)
    (hlength : weights.length ≤ MAX_WEIGHTS) :
    SharesFairly places total weights (largestRemainderIn places total weights) := by
  have hw : Weighable weights := ⟨hmultiples, hbelow, hlength⟩
  by_cases hpos : 0 < halfEven (total * 10 ^ places)
  · by_cases hsome : ∃ weight ∈ weights, 0 < weight.2
    · exact sharesFairly_some (by omega) hmagnitude hw hpos hsome
    · exact sharesFairly_nothing hw (.inr hsome)
  · exact sharesFairly_nothing hw (.inl (not_lt.mp hpos))

end Decimals

end AgenticOrg.Spend.Gpu
