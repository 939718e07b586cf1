import AgenticOrg.Spend.Gpu.Precision
import AgenticOrg.Spend.Usage

namespace AgenticOrg.Spend.Gpu

open Decimals

section Definitions

-- A call with its part of a share.
structure SplitCall where
  ref : String
  hours : ℚ
  amount : Option ℚ
  amountInr : Option ℚ
  deriving DecidableEq

-- What `dict` holds for a key: the last of its values.
def lastOf (entries : List (String × ℚ)) (ref : String) : Option ℚ := entries.reverse.lookup ref

-- The calls that get hours, with their tokens.
def splitHours (share : ℚ) (calls : List (String × ℚ)) : List (String × ℚ) :=
  (largestRemainderIn QTY_PLACES share calls).filter fun call => 0 < call.2

def callWeights (share : ℚ) (calls : List (String × ℚ)) : List (String × ℚ) :=
  (splitHours share calls).map fun call => (call.1, (lastOf calls call.1).getD 0)

def splitMoney (total : ℚ) (share : ℚ) (calls : List (String × ℚ)) : List (String × ℚ) :=
  largestRemainderIn AMOUNT_PLACES total (callWeights share calls)

def splitShareIn (share : ℚ) (calls : List (String × ℚ)) (amount amountInr : Option ℚ) : List SplitCall :=
  (splitHours share calls).map fun call =>
    { ref := call.1
      hours := call.2
      amount := amount.bind fun total => lastOf (splitMoney total share calls) call.1
      amountInr := amountInr.bind fun total => lastOf (splitMoney total share calls) call.1 }

-- What an amount comes to over the calls.
def moneyTotal (money : SplitCall → Option ℚ) (split : List SplitCall) : ℚ :=
  (split.map fun call => (money call).getD 0).sum

end Definitions

section Dicts

theorem lastOf_of_mem (entries : List (String × ℚ)) (hd : (entries.map (·.1)).Nodup) (entry : String × ℚ)
    (h : entry ∈ entries) : lastOf entries entry.1 = some entry.2 := by
  refine Lists.lookup_of_mem entries.reverse entry.1 entry.2 ?_ (List.mem_reverse.mpr h)
  rw [List.map_reverse]
  exact List.nodup_reverse.mpr hd

theorem sum_lastOf (entries : List (String × ℚ)) (hd : (entries.map (·.1)).Nodup) :
    ((entries.map (·.1)).map fun ref => (lastOf entries ref).getD 0).sum = (entries.map (·.2)).sum := by
  rw [List.map_map]
  congr 1
  refine List.map_congr_left fun entry he => ?_
  rw [Function.comp_apply, lastOf_of_mem entries hd entry he, Option.getD_some]

end Dicts

section Shares

variable (share : ℚ) (calls : List (String × ℚ))

-- A share in millionths of an hour, and calls with their tokens.
structure Shareable : Prop where
  positive : 0 < share
  below : share < 10 ^ 14
  multiple : Multiple (-6) share
  refs : (calls.map (·.1)).Nodup
  weighable : Weighable calls
  charged : ∃ call ∈ calls, 0 < call.2

variable {share calls}

theorem quantized_of_multiple (places : ℕ) (x : ℚ) (h : Multiple (-(places : ℤ)) x) : quantized places x = x := by
  obtain ⟨n, rfl⟩ := h
  have hten : (10 : ℚ) ^ places ≠ 0 := by positivity
  have hscaled : (n : ℚ) * 10 ^ (-(places : ℤ)) * 10 ^ places = n := by
    rw [zpow_neg, zpow_natCast, mul_assoc, inv_mul_cancel₀ hten, mul_one]
  rw [quantized, hscaled, halfEven_intCast, zpow_neg, zpow_natCast, div_eq_mul_inv]

theorem Shareable.fair (h : Shareable share calls) :
    SharesFairly QTY_PLACES share calls (largestRemainderIn QTY_PLACES share calls) :=
  largestRemainderIn_fair (.inl rfl) (by rw [abs_of_pos h.positive]; exact h.below) h.weighable.multiples
    h.weighable.below h.weighable.length_le

theorem Shareable.sum_hours (h : Shareable share calls) : ((splitHours share calls).map (·.2)).sum = share := by
  have hfair := h.fair
  have hsum := hfair.sum h.positive.le h.charged
  rw [quantized_of_multiple QTY_PLACES share h.multiple] at hsum
  refine Eq.trans ?_ hsum
  rw [splitHours]
  refine Lists.sum_filter (fun call : String × ℚ => call.2) _ _ fun call hc hnot => ?_
  rw [decide_eq_true_eq, not_lt] at hnot
  exact le_antisymm hnot (hfair.nonneg call hc)

theorem Shareable.refs_hours (h : Shareable share calls) : ((splitHours share calls).map (·.1)).Nodup := by
  have hsub : ((splitHours share calls).map (·.1)).Sublist (calls.map (·.1)) := by
    rw [← h.fair.keys]
    exact List.filter_sublist.map _
  exact hsub.nodup h.refs

-- A call with hours is one of the calls, and has tokens.
theorem Shareable.call_of_hours (h : Shareable share calls) (call : String × ℚ) (hc : call ∈ splitHours share calls) :
    ∃ own ∈ calls, own.1 = call.1 ∧ 0 < own.2 ∧ lastOf calls call.1 = some own.2 := by
  obtain ⟨hmem, hpos⟩ := List.mem_filter.mp hc
  rw [decide_eq_true_eq] at hpos
  have hfair := h.fair
  obtain ⟨index, hindex⟩ := List.mem_iff_getElem?.mp hmem
  have hkeys := congrArg (fun keys : List String => keys[index]?) hfair.keys
  simp only [List.getElem?_map, hindex, Option.map_some] at hkeys
  obtain ⟨own, hown, hkey⟩ := Option.map_eq_some_iff.mp hkeys.symm
  have hpair : (own, call) ∈ calls.zip (largestRemainderIn QTY_PLACES share calls) :=
    List.mem_iff_getElem?.mpr ⟨index, List.getElem?_zip_eq_some.mpr ⟨hown, hindex⟩⟩
  have hown' := List.mem_iff_getElem?.mpr ⟨index, hown⟩
  refine ⟨own, hown', hkey, ?_, ?_⟩
  · by_contra hnot
    exact hpos.ne' (hfair.nothing _ hpair (not_lt.mp hnot))
  · rw [← hkey]
    exact lastOf_of_mem calls h.refs own hown'

theorem Shareable.weights (h : Shareable share calls) :
    (callWeights share calls).map (·.1) = (splitHours share calls).map (·.1) ∧
      Weighable (callWeights share calls) ∧ ∃ weight ∈ callWeights share calls, 0 < weight.2 := by
  have hweight : ∀ weight ∈ callWeights share calls, weight.2 ∈ calls.map (·.2) ∧ 0 < weight.2 := by
    intro weight hw
    obtain ⟨call, hc, rfl⟩ := List.mem_map.mp hw
    obtain ⟨own, hown, _, hpos, hlast⟩ := h.call_of_hours call hc
    dsimp only
    rw [hlast, Option.getD_some]
    exact ⟨List.mem_map_of_mem hown, hpos⟩
  have hown : ∀ weight ∈ callWeights share calls, ∃ own ∈ calls, own.2 = weight.2 := fun weight hw =>
    List.mem_map.mp (hweight weight hw).1
  refine ⟨?_, ⟨?_, ?_, ?_⟩, ?_⟩
  · rw [callWeights, List.map_map]
    rfl
  · intro weight hw
    obtain ⟨own, hmem, hsame⟩ := hown weight hw
    exact hsame ▸ h.weighable.multiples own hmem
  · intro weight hw
    obtain ⟨own, hmem, hsame⟩ := hown weight hw
    exact hsame ▸ h.weighable.below own hmem
  · have hlength : (largestRemainderIn QTY_PLACES share calls).length = calls.length := by
      have hkeys := congrArg List.length h.fair.keys
      rwa [List.length_map, List.length_map] at hkeys
    rw [callWeights, List.length_map, splitHours]
    exact (List.length_filter_le _ _).trans (hlength ▸ h.weighable.length_le)
  · have hne : splitHours share calls ≠ [] := by
      intro hnone
      have hsum := h.sum_hours
      rw [hnone] at hsum
      exact h.positive.ne hsum
    obtain ⟨call, hc⟩ := List.exists_mem_of_ne_nil _ hne
    have hmem : (call.1, (lastOf calls call.1).getD 0) ∈ callWeights share calls := List.mem_map_of_mem hc
    exact ⟨_, hmem, (hweight _ hmem).2⟩

-- The calls with hours get the whole of an amount, each its own part.
theorem Shareable.sum_money (h : Shareable share calls) (total : ℚ) (hnonneg : 0 ≤ total) (hbelow : total < 10 ^ 14)
    (hmultiple : Multiple (-10) total) :
    ((splitHours share calls).map fun call => (lastOf (splitMoney total share calls) call.1).getD 0).sum = total := by
  obtain ⟨hkeys, hweighable, hsome⟩ := h.weights
  have hfair : SharesFairly AMOUNT_PLACES total (callWeights share calls) (splitMoney total share calls) :=
    largestRemainderIn_fair (.inr rfl) (by rw [abs_of_nonneg hnonneg]; exact hbelow) hweighable.multiples
      hweighable.below hweighable.length_le
  have hrefs : (splitMoney total share calls).map (·.1) = (splitHours share calls).map (·.1) := hfair.keys.trans hkeys
  have hlast := sum_lastOf (splitMoney total share calls) (hrefs ▸ h.refs_hours)
  rw [hrefs] at hlast
  simp only [List.map_map, Function.comp_def] at hlast
  have hsum := hfair.sum hnonneg hsome
  rw [quantized_of_multiple AMOUNT_PLACES total hmultiple, ← hlast] at hsum
  exact hsum

theorem moneyTotal_split (h : Shareable share calls) (money : SplitCall → Option ℚ) (own : Option ℚ)
    (amount amountInr : Option ℚ) (hnonneg : ∀ total ∈ own, 0 ≤ total) (hbelow : ∀ total ∈ own, total < 10 ^ 14)
    (hmultiple : ∀ total ∈ own, Multiple (-10) total)
    (hmoney : (splitShareIn share calls amount amountInr).map money = (splitHours share calls).map fun call =>
      own.bind fun total => lastOf (splitMoney total share calls) call.1) :
    moneyTotal money (splitShareIn share calls amount amountInr) = own.getD 0 := by
  have hmap : (splitShareIn share calls amount amountInr).map (fun call => (money call).getD 0) =
      (splitHours share calls).map fun call =>
        (own.bind fun total => lastOf (splitMoney total share calls) call.1).getD 0 := by
    have hget := congrArg (List.map fun part : Option ℚ => part.getD 0) hmoney
    rwa [List.map_map, List.map_map] at hget
  rw [moneyTotal, hmap]
  cases own with
  | none => simp
  | some total => exact h.sum_money total (hnonneg total rfl) (hbelow total rfl) (hmultiple total rfl)

end Shares

section Results

-- 38-digit division is exact enough for every split of at most a million million weights, and what a share is
-- split into comes to the share.
theorem largestRemainder_exact :
    (∀ (κ : Type) [LinearOrder κ] (places : ℕ) (total : ℚ) (weights : List (κ × ℚ)), places = 6 ∨ places = 10 →
      |total| < 10 ^ 14 → (∀ weight ∈ weights, Multiple (-6) weight.2) → (∀ weight ∈ weights, weight.2 < 10 ^ 18) →
      weights.length ≤ MAX_WEIGHTS →
      SharesFairly places total weights (largestRemainderIn places total weights)) ∧
    ∀ (share : ℚ) (calls : List (String × ℚ)) (amount amountInr : Option ℚ), Shareable share calls →
      (∀ money : Option ℚ, money = amount ∨ money = amountInr → ∀ total ∈ money,
        0 ≤ total ∧ total < 10 ^ 14 ∧ Multiple (-10) total) →
      ((splitShareIn share calls amount amountInr).map (·.hours)).sum = share ∧
        moneyTotal (·.amount) (splitShareIn share calls amount amountInr) = amount.getD 0 ∧
        moneyTotal (·.amountInr) (splitShareIn share calls amount amountInr) = amountInr.getD 0 := by
  refine ⟨fun κ _ places total weights hplaces hmagnitude hmultiples hbelow hlength =>
    largestRemainderIn_fair hplaces hmagnitude hmultiples hbelow hlength, ?_⟩
  intro share calls amount amountInr h hmoney
  have hown : ∀ own, own = amount ∨ own = amountInr → ∀ money : SplitCall → Option ℚ,
      ((splitShareIn share calls amount amountInr).map money = (splitHours share calls).map fun call =>
        own.bind fun total => lastOf (splitMoney total share calls) call.1) →
      moneyTotal money (splitShareIn share calls amount amountInr) = own.getD 0 := fun own hcase money =>
    moneyTotal_split h money own amount amountInr (fun total ht => (hmoney own hcase total ht).1)
      (fun total ht => (hmoney own hcase total ht).2.1) fun total ht => (hmoney own hcase total ht).2.2
  refine ⟨?_, hown amount (.inl rfl) _ ?_, hown amountInr (.inr rfl) _ ?_⟩
  · rw [splitShareIn, List.map_map]
    exact h.sum_hours
  · rw [splitShareIn, List.map_map]
    rfl
  · rw [splitShareIn, List.map_map]
    rfl

def sampleCalls : List (String × ℚ) := [("a", 2), ("b", 1), ("c", 0)]

theorem sampleCalls_weighable : Weighable sampleCalls where
  multiples := by
    intro call hc
    simp only [sampleCalls, List.mem_cons, List.not_mem_nil, or_false] at hc
    rcases hc with rfl | rfl | rfl
    · exact ⟨2000000, by norm_num⟩
    · exact ⟨1000000, by norm_num⟩
    · exact Multiple.zero _
  below := by decide +kernel
  length_le := by decide

theorem largestRemainder_exact_sample :
    ((largestRemainderIn 10 (1 / 10) sampleCalls).map (·.2)).sum = quantized 10 (1 / 10) ∧
      moneyTotal (·.amount) (splitShareIn (5 / 10 ^ 6) sampleCalls (some (1 / 10)) none) = 1 / 10 := by
  have hw := sampleCalls_weighable
  have hfair := largestRemainder_exact.1 String 10 (1 / 10) sampleCalls (.inr rfl) (by decide +kernel) hw.multiples
    hw.below hw.length_le
  have hshare : Shareable (5 / 10 ^ 6) sampleCalls :=
    ⟨by norm_num, by norm_num, ⟨5, by norm_num⟩, by decide, hw, by decide +kernel⟩
  refine ⟨hfair.sum (by norm_num) (by decide +kernel), ?_⟩
  refine (largestRemainder_exact.2 (5 / 10 ^ 6) sampleCalls (some (1 / 10)) none hshare ?_).2.1
  rintro money (rfl | rfl) total ht
  · rw [← Option.some.inj ht]
    exact ⟨by norm_num, by norm_num, 1000000000, by norm_num⟩
  · cases ht

end Results

section Limits

-- A running sum that the further weights are too small to move.
def stalledWeights (n m : ℕ) : List (String × ℚ) :=
  (List.range n).map (fun i => (String.ofList (List.replicate i 'x'), 10 ^ 17)) ++
    (List.range m).map fun i => (String.ofList (List.replicate (n + i) 'x'), 4 / 10 ^ 6)

theorem values_stalledWeights (n m : ℕ) :
    (stalledWeights n m).map (·.2) = List.replicate n (10 ^ 17) ++ List.replicate m (4 / 10 ^ 6) := by
  rw [stalledWeights, List.map_append, List.map_map, List.map_map, Function.comp_def, Function.comp_def,
    List.map_const', List.map_const', List.length_range, List.length_range]

theorem map_stalledWeights {β : Type} (f : ℚ → β) (n m : ℕ) :
    ((indexed (stalledWeights n m)).map fun weight => f weight.2) =
      List.replicate n (f (10 ^ 17)) ++ List.replicate m (f (4 / 10 ^ 6)) := by
  have hvalues : ((indexed (stalledWeights n m)).map fun weight => weight.2) = (stalledWeights n m).map (·.2) := by
    conv_rhs => rw [← map_indexed (stalledWeights n m)]
    rw [List.map_map]
    rfl
  have hmap : ((indexed (stalledWeights n m)).map fun weight => f weight.2) =
      (((indexed (stalledWeights n m)).map fun weight => weight.2).map f) := by
    rw [List.map_map]
    rfl
  rw [hmap, hvalues, values_stalledWeights, List.map_append, List.map_replicate, List.map_replicate]

theorem total_stalled (n m : ℕ) (hn : (n : ℚ) * 10 ^ 17 = 10 ^ 32) :
    Decimals.total SPLIT_DIGITS (List.replicate n (10 ^ 17) ++ List.replicate m (4 / 10 ^ 6)) = 10 ^ 32 := by
  have hfirst : (List.replicate n (10 ^ 17 : ℚ)).foldl (plus SPLIT_DIGITS) 0 = 10 ^ 32 := by
    rw [foldl_plus SPLIT_DIGITS 17 _ 0 (Multiple.zero _), List.sum_replicate, nsmul_eq_mul, zero_add, hn]
    · intro x hx
      rw [List.eq_of_mem_replicate hx]
      exact ⟨1, by norm_num⟩
    · rw [List.map_replicate, List.sum_replicate, nsmul_eq_mul, abs_zero, zero_add,
        abs_of_pos (by norm_num : (0 : ℚ) < 10 ^ 17), hn, SPLIT_DIGITS]
      norm_num
  have hsmall : plus SPLIT_DIGITS (10 ^ 32) (4 / 10 ^ 6) = 10 ^ 32 := by decide +kernel
  rw [Decimals.total, List.foldl_append, hfirst]
  induction m with
  | zero => rfl
  | succ m ih => rw [List.replicate_succ, List.foldl_cons, hsmall, ih]

-- With the sum too small, the floors of the large weights use up the total.
theorem largestRemainder_stalled (n m : ℕ) (hn : (n : ℚ) * 10 ^ 17 = 10 ^ 32) (hfloors : (n : ℤ) * 10 ^ 8 = 10 ^ 23) :
    largestRemainder (10 ^ 23) (indexed (stalledWeights n m)) = (indexed (stalledWeights n m)).map fun weight =>
      (weight.1, ⌊exactShare (10 ^ 23) (10 ^ 32) (max 0 weight.2)⌋) := by
  have hlarge : ⌊exactShare (10 ^ 23) (10 ^ 32) (max 0 (10 ^ 17))⌋ = 10 ^ 8 := by decide +kernel
  have hsmall : ⌊exactShare (10 ^ 23) (10 ^ 32) (max 0 (4 / 10 ^ 6))⌋ = 0 := by decide +kernel
  have htotal : Decimals.total SPLIT_DIGITS ((indexed (stalledWeights n m)).map fun weight => max 0 weight.2) =
      10 ^ 32 := by
    rw [map_stalledWeights (max 0)]
    have hvalues : max 0 (10 ^ 17 : ℚ) = 10 ^ 17 ∧ max 0 (4 / 10 ^ 6 : ℚ) = 4 / 10 ^ 6 := by
      constructor <;> exact max_eq_right (by positivity)
    rw [hvalues.1, hvalues.2]
    exact total_stalled n m hn
  have hsum : (((indexed (stalledWeights n m)).map (partOf (10 ^ 23) (10 ^ 32))).map (·.floor)).sum = 10 ^ 23 := by
    have hmap := map_stalledWeights (fun value => ⌊exactShare (10 ^ 23) (10 ^ 32) (max 0 value)⌋) n m
    rw [hlarge, hsmall] at hmap
    rw [List.map_map]
    refine (congrArg List.sum hmap).trans ?_
    rw [List.sum_append, List.sum_replicate, List.sum_replicate, nsmul_eq_mul, nsmul_zero, add_zero]
    exact hfloors
  unfold largestRemainder
  dsimp only
  rw [htotal, if_neg (by norm_num), hsum, sub_self, sliceEnd, if_pos le_rfl, List.map_map]
  refine List.map_congr_left fun weight _ => ?_
  rw [Function.comp_apply, Awards.award, Awards.first, Int.toNat_zero, List.take_zero, if_neg List.not_mem_nil, add_zero]
  rfl

theorem weightSum_stalled (n m : ℕ) : weightSum (stalledWeights n m) = n * 10 ^ 17 + m * (4 / 10 ^ 6) := by
  have hmap : (stalledWeights n m).map positiveWeight = ((stalledWeights n m).map (·.2)).map (max 0) := by
    rw [List.map_map]
    rfl
  rw [weightSum, hmap, values_stalledWeights, List.map_append, List.map_replicate, List.map_replicate,
    max_eq_right (by positivity), max_eq_right (by positivity), List.sum_append, List.sum_replicate,
    List.sum_replicate, nsmul_eq_mul, nsmul_eq_mul]

theorem stalled_far (n m : ℕ) (hn : (n : ℚ) * 10 ^ 17 = 10 ^ 32) (hfloors : (n : ℤ) * 10 ^ 8 = 10 ^ 23)
    (hm : (m : ℚ) * (4 / 10 ^ 6) = 4 * 10 ^ 33) :
    ∃ pair ∈ (stalledWeights n m).zip (largestRemainderIn 10 (10 ^ 13) (stalledWeights n m)),
      1 / 10 ^ 10 ≤ |pair.2.2 - properShare (10 ^ 13) (stalledWeights n m) pair.1| := by
  have hamount : halfEven (10 ^ 13 * 10 ^ 10) = 10 ^ 23 := by decide +kernel
  have hshares := largestRemainder_stalled n m hn hfloors
  rw [← hamount] at hshares
  rw [zip_largestRemainderIn _ hshares, hamount]
  have hpos : 0 < n := by
    by_contra hzero
    rw [Nat.eq_zero_of_not_pos hzero] at hn
    norm_num at hn
  have hmem : (String.ofList (List.replicate 0 'x'), (10 ^ 17 : ℚ)) ∈ stalledWeights n m :=
    List.mem_append_left _ (List.mem_map.mpr ⟨0, List.mem_range.mpr hpos, rfl⟩)
  rw [← map_indexed (stalledWeights n m)] at hmem
  obtain ⟨weight, hweight, hsame⟩ := List.mem_map.mp hmem
  refine ⟨_, List.mem_map_of_mem hweight, ?_⟩
  have hvalue : weight.2 = 10 ^ 17 := congrArg Prod.snd hsame
  have hfloor : ⌊exactShare (10 ^ 23) (10 ^ 32) (max 0 (10 ^ 17))⌋ = 10 ^ 8 := by decide +kernel
  dsimp only [properShare, positiveWeight]
  rw [hvalue, hfloor, weightSum_stalled, hn, hm, max_eq_right (by positivity)]
  norm_num [abs_of_pos]

theorem stalledWeights_nodup (n m : ℕ) : ((stalledWeights n m).map (·.1)).Nodup := by
  have hkeys : (stalledWeights n m).map (·.1) =
      (List.range (n + m)).map fun i => String.ofList (List.replicate i 'x') := by
    rw [stalledWeights, List.range_add, List.map_append, List.map_append, List.map_map, List.map_map, List.map_map]
    rfl
  rw [hkeys]
  refine List.Nodup.map ?_ List.nodup_range
  intro i j hsame
  exact List.replicate_left_injective 'x' (String.ofList_injective hsame)

theorem stalledWeights_small (n m : ℕ) :
    ∀ weight ∈ stalledWeights n m, Multiple (-6) weight.2 ∧ weight.2 < 10 ^ 18 := by
  intro weight hw
  have hvalue : weight.2 ∈ (stalledWeights n m).map (·.2) := List.mem_map_of_mem hw
  rw [values_stalledWeights, List.mem_append] at hvalue
  rcases hvalue with hvalue | hvalue
  · rw [List.eq_of_mem_replicate hvalue]
    exact ⟨⟨10 ^ 23, by norm_num⟩, by norm_num⟩
  · rw [List.eq_of_mem_replicate hvalue]
    exact ⟨⟨4, by norm_num⟩, by norm_num⟩

-- What a split cannot do: be near the share of a total below zero, or of one finer than its steps; be near any
-- share once the weights' sum has more than 38 digits; and keep money that no call has hours for, or whose calls
-- are not told apart.
theorem largestRemainder_limits :
    (∃ pair ∈ [("a", (1 : ℚ))].zip (largestRemainderIn 6 (-1) [("a", 1)]),
      1 / 10 ^ 6 ≤ |pair.2.2 - properShare (-1) [("a", 1)] pair.1|) ∧
    (∃ pair ∈ [("a", (1135 : ℚ)), ("b", 32), ("c", 33)].zip
        (largestRemainderIn 6 (115 / 10 ^ 7) [("a", 1135), ("b", 32), ("c", 33)]),
      1 / 10 ^ 6 ≤ |pair.2.2 - properShare (115 / 10 ^ 7) [("a", 1135), ("b", 32), ("c", 33)] pair.1|) ∧
    (∃ weights : List (String × ℚ), (weights.map (·.1)).Nodup ∧
      (∀ weight ∈ weights, Multiple (-6) weight.2 ∧ weight.2 < 10 ^ 18) ∧
      ∃ pair ∈ weights.zip (largestRemainderIn 10 (10 ^ 13) weights),
        1 / 10 ^ 10 ≤ |pair.2.2 - properShare (10 ^ 13) weights pair.1|) ∧
    moneyTotal (·.amount) (splitShareIn (4 / 10 ^ 7) [("a", 1)] (some 1) none) = 0 ∧
    moneyTotal (·.amount) (splitShareIn (2 / 10 ^ 6) [("a", 1), ("a", 1)] (some (1 / 10 ^ 10)) none) = 0 := by
  refine ⟨by decide +kernel, by decide +kernel, ?_, by decide +kernel, by decide +kernel⟩
  have hn : ((10 ^ 15 : ℕ) : ℚ) * 10 ^ 17 = 10 ^ 32 := by norm_num
  have hfloors : ((10 ^ 15 : ℕ) : ℤ) * 10 ^ 8 = 10 ^ 23 := by norm_num
  have hm : ((10 ^ 39 : ℕ) : ℚ) * (4 / 10 ^ 6) = 4 * 10 ^ 33 := by norm_num
  exact ⟨stalledWeights (10 ^ 15) (10 ^ 39), stalledWeights_nodup _ _, stalledWeights_small _ _,
    stalled_far _ _ hn hfloors hm⟩

end Limits

end AgenticOrg.Spend.Gpu
