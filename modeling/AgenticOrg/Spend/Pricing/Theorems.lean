import AgenticOrg.Lib.Decimal.Bounds
import AgenticOrg.Lib.Lists
import AgenticOrg.Spend.Pricing

namespace AgenticOrg.Spend.Pricing

open Decimals Tables

section Candidates

theorem mem_candidatesFor (usage : Usage) (cards : List RateCard) (cardUnit : String) (found : Bool × RateCard)
    (h : found ∈ candidatesFor usage cards cardUnit) :
    found.2 ∈ cards ∧ (found.1 = true ↔ found.2.key.modelSku ≠ "") := by
  obtain ⟨card, hcard, hfound⟩ := List.mem_filterMap.mp h
  split_ifs at hfound with hunit hprovider hmodel hmodel
  · cases hfound
    exact ⟨hcard, iff_of_true rfl hmodel.1⟩
  · cases hfound
    exact ⟨hcard, iff_of_false Bool.false_ne_true fun h => h hmodel⟩

-- Cards that cannot be candidates make no difference.
theorem candidatesFor_filter (usage : Usage) (cards : List RateCard) (cardUnit : String) (test : RateCard → Bool)
    (h : ∀ card ∈ cards, card.status = .active → inForce card usage.on = true →
      card.key.provider = usage.provider → card.key.usageType = usage.usageType → test card = true) :
    candidatesFor usage (cards.filter test) cardUnit = candidatesFor usage cards cardUnit := by
  unfold candidatesFor
  rw [List.filterMap_filter]
  refine List.filterMap_congr fun card hcard => ?_
  by_cases ht : test card = true
  · rw [if_pos ht]
  · rw [if_neg ht]
    split_ifs with hunit hprovider hmodel hmodel
    · rfl
    · rfl
    all_goals
      push Not at hunit hprovider
      exact absurd (h card hcard hunit.1 (by simpa using hunit.2.2) hprovider.1 hprovider.2) ht

theorem candidatesFor_perm (usage : Usage) (cards others : List RateCard) (cardUnit : String)
    (h : cards.Perm others) : (candidatesFor usage cards cardUnit).Perm (candidatesFor usage others cardUnit) :=
  h.filterMap _

end Candidates

section Ranking

theorem rankKey_inj (a b : Bool) (i j : ℕ) (unit source other : String) (start stop : Date) (id otherId blend otherBlend : String)
    (h : rankKey a i unit source start id blend = rankKey b j unit other stop otherId otherBlend) :
    i = j ∧ id = otherId ∧ blend = otherBlend := by
  simp only [rankKey, toLex_inj, Prod.mk.injEq, Nat.cast_inj] at h
  exact ⟨h.2.2.2.1, h.2.2.2.2.2⟩

variable (env : PricingEnv) (usage : Usage)

-- What a ranked price is made of.
inductive RankedFrom (cards : List RateCard) (path : PricePath) (index : ℕ) : RankKey × Selection → Prop where
  | blend (input output : Bool × RateCard) (item : RankKey × Selection)
      (hinput : input ∈ candidatesFor usage cards "1m_input_tokens")
      (houtput : output ∈ candidatesFor usage cards "1m_output_tokens")
      (hitem : blendCandidate env usage index path.divisor input output = some item) (hpath : path.cardUnit = "blend") :
      RankedFrom cards path index item
  | card (found : Bool × RateCard) (item : RankKey × Selection)
      (hfound : found ∈ candidatesFor usage cards path.cardUnit)
      (hitem : cardCandidate env usage index path found = some item) (hpath : path.cardUnit ≠ "blend") :
      RankedFrom cards path index item

theorem mem_ranked (cards : List RateCard) (item : RankKey × Selection) (h : item ∈ ranked env usage cards) :
    ∃ path index, ((PRICE_PATHS.lookup usage.unit).getD [])[index]? = some path ∧
      RankedFrom env usage cards path index item := by
  obtain ⟨⟨path, index⟩, hpath, hitem⟩ := List.mem_flatMap.mp h
  refine ⟨path, index, List.mem_zipIdx_iff_getElem?.mp hpath, ?_⟩
  unfold rankedFor at hitem
  split_ifs at hitem with hblend
  · obtain ⟨input, hinput, hitem⟩ := List.mem_flatMap.mp hitem
    obtain ⟨output, houtput, hitem⟩ := List.mem_filterMap.mp hitem
    exact .blend input output item hinput houtput hitem hblend
  · obtain ⟨found, hfound, hitem⟩ := List.mem_filterMap.mp hitem
    exact .card found item hfound hitem hblend

theorem candidate_unique (rows : Cards) (cards others : List RateCard) (unit other : String)
    (hcards : ∀ card ∈ cards, card ∈ rows.rows) (hothers : ∀ card ∈ others, card ∈ rows.rows) (a b : Bool × RateCard)
    (ha : a ∈ candidatesFor usage cards unit) (hb : b ∈ candidatesFor usage others other) (h : a.2.id = b.2.id) :
    a = b := by
  obtain ⟨hacard, haspecific⟩ := mem_candidatesFor usage cards unit a ha
  obtain ⟨hbcard, hbspecific⟩ := mem_candidatesFor usage others other b hb
  have hcard : a.2 = b.2 := rows.eq_of_key a.2 b.2 (hcards _ hacard) (hothers _ hbcard) h
  refine Prod.ext (Bool.eq_iff_iff.mpr ?_) hcard
  rw [haspecific, hbspecific, hcard]

theorem blendCandidate_key (index : ℕ) (divisor : Option ℕ) (input output : Bool × RateCard)
    (item : RankKey × Selection) (h : blendCandidate env usage index divisor input output = some item) :
    ∃ source started, item.1 = rankKey input.1 index usage.unit source started input.2.id output.2.id := by
  unfold blendCandidate at h
  by_cases hapart : input.1 ≠ output.1 ∨ input.2.currency ≠ output.2.currency
  · rw [if_pos hapart] at h
    cases h
  · rw [if_neg hapart] at h
    cases h
    exact ⟨_, _, rfl⟩

theorem cardCandidate_key (index : ℕ) (path : PricePath) (found : Bool × RateCard) (item : RankKey × Selection)
    (h : cardCandidate env usage index path found = some item) :
    item.1 = rankKey found.1 index usage.unit found.2.key.source found.2.effectiveFrom found.2.id "" := by
  obtain ⟨price, _, rfl⟩ := Option.map_eq_some_iff.mp h
  rfl

-- A key belongs to one price.
theorem ranked_unique (rows : Cards) (cards others : List RateCard) (hcards : ∀ card ∈ cards, card ∈ rows.rows)
    (hothers : ∀ card ∈ others, card ∈ rows.rows) (a b : RankKey × Selection) (ha : a ∈ ranked env usage cards)
    (hb : b ∈ ranked env usage others) (h : a.1 = b.1) : a = b := by
  obtain ⟨path, index, hpath, ha⟩ := mem_ranked env usage cards a ha
  obtain ⟨otherPath, otherIndex, hotherPath, hb⟩ := mem_ranked env usage others b hb
  have hsame : ∀ found other : Bool × RateCard, ∀ unit otherUnit : String, found ∈ candidatesFor usage cards unit →
      other ∈ candidatesFor usage others otherUnit → found.2.id = other.2.id → found = other :=
    fun found other unit otherUnit hf ho =>
      candidate_unique usage rows cards others unit otherUnit hcards hothers found other hf ho
  have hpaths : index = otherIndex → path = otherPath := by
    rintro rfl
    rw [hpath] at hotherPath
    exact Option.some.inj hotherPath
  cases ha with
  | blend input output _ hinput houtput hitem hblend =>
      obtain ⟨source, started, hkey⟩ := blendCandidate_key env usage index path.divisor input output a hitem
      cases hb with
      | blend otherInput otherOutput _ hotherInput hotherOutput hother _ =>
          obtain ⟨_, _, hotherKey⟩ := blendCandidate_key env usage _ _ otherInput otherOutput b hother
          rw [hkey, hotherKey] at h
          obtain ⟨rfl, hid, hblendId⟩ := rankKey_inj _ _ _ _ _ _ _ _ _ _ _ _ _ h
          obtain rfl := hsame input otherInput _ _ hinput hotherInput hid
          obtain rfl := hsame output otherOutput _ _ houtput hotherOutput hblendId
          obtain rfl := hpaths rfl
          exact Option.some.inj (hitem.symm.trans hother)
      | card found _ _ hother hcard =>
          rw [hkey, cardCandidate_key env usage _ _ found b hother] at h
          obtain ⟨rfl, _, _⟩ := rankKey_inj _ _ _ _ _ _ _ _ _ _ _ _ _ h
          exact absurd (hpaths rfl ▸ hblend) hcard
  | card found _ hfound hitem hcard =>
      have hkey := cardCandidate_key env usage index path found a hitem
      cases hb with
      | blend otherInput otherOutput _ _ _ hother hblend =>
          obtain ⟨_, _, hotherKey⟩ := blendCandidate_key env usage _ _ otherInput otherOutput b hother
          rw [hkey, hotherKey] at h
          obtain ⟨rfl, _, _⟩ := rankKey_inj _ _ _ _ _ _ _ _ _ _ _ _ _ h
          exact absurd (hpaths rfl ▸ hblend) hcard
      | card otherFound _ hotherFound hother _ =>
          rw [hkey, cardCandidate_key env usage _ _ otherFound b hother] at h
          obtain ⟨rfl, hid, _⟩ := rankKey_inj _ _ _ _ _ _ _ _ _ _ _ _ _ h
          obtain rfl := hpaths rfl
          obtain rfl := hsame found otherFound _ _ hfound hotherFound hid
          exact Option.some.inj (hitem.symm.trans hother)

theorem ranked_perm (cards others : List RateCard)
    (h : ∀ unit, (candidatesFor usage cards unit).Perm (candidatesFor usage others unit)) :
    (ranked env usage cards).Perm (ranked env usage others) := by
  refine List.Perm.flatMap_left _ fun path _ => ?_
  unfold rankedFor
  split_ifs
  · exact (h "1m_input_tokens").flatMap fun input _ => (h "1m_output_tokens").filterMap _
  · exact (h path.1.cardUnit).filterMap _

-- The best price does not depend on the order of the cards.
theorem selection_eq (rows : Cards) (cards others : List RateCard) (hcards : ∀ card ∈ cards, card ∈ rows.rows)
    (hothers : ∀ card ∈ others, card ∈ rows.rows)
    (h : ∀ unit, (candidatesFor usage cards unit).Perm (candidatesFor usage others unit)) :
    selection env usage cards = selection env usage others := by
  have hsorted : ∀ items : List (RankKey × Selection), (items.mergeSort fun a b => a.1 ≤ b.1).Pairwise
      fun a b => decide (a.1 ≤ b.1) = true := by
    refine fun items => List.pairwise_mergeSort (fun a b c hab hbc => ?_) (fun a b => ?_) items
    · exact decide_eq_true ((of_decide_eq_true hab).trans (of_decide_eq_true hbc))
    · rw [Bool.or_eq_true, decide_eq_true_eq, decide_eq_true_eq]
      exact le_total a.1 b.1
  have hsame : ((ranked env usage cards).mergeSort fun a b => a.1 ≤ b.1) =
      (ranked env usage others).mergeSort fun a b => a.1 ≤ b.1 := by
    have hperm := ((List.mergeSort_perm (ranked env usage cards) fun a b => a.1 ≤ b.1).trans
      (ranked_perm env usage cards others h)).trans
        (List.mergeSort_perm (ranked env usage others) fun a b => a.1 ≤ b.1).symm
    refine hperm.eq_of_pairwise (fun a b ha hb hab hba => ?_) (hsorted _) (hsorted _)
    exact ranked_unique env usage rows cards others hcards hothers a b (List.mem_mergeSort.mp ha)
      (List.mem_mergeSort.mp hb) (le_antisymm (of_decide_eq_true hab) (of_decide_eq_true hba))
  unfold selection selectPrice
  rw [hsame]

end Ranking

section Needs

variable (env : PricingEnv) (usage : Usage)

theorem times_zero (x y : ℚ) (h : x = 0 ∨ y = 0) : times x y = 0 :=
  (rounded_eq_zero CTX_DIGITS (by decide) _).mpr (mul_eq_zero.mpr h)

-- A blend of prices is zero where both are.
theorem blendOf_eq_zero (input output : ℚ) (hi : 0 ≤ input) (ho : 0 ≤ output) (h : blendOf input output = 0) :
    input = 0 ∧ output = 0 := by
  have hshare : (0 : ℚ) < INPUT_SHARE := by norm_num [INPUT_SHARE]
  have hrest : (0 : ℚ) < OUTPUT_SHARE := by norm_num [OUTPUT_SHARE, INPUT_SHARE]
  have hfirst : 0 ≤ times input INPUT_SHARE := rounded_nonneg _ _ (mul_nonneg hi hshare.le)
  have hsecond : 0 ≤ times output OUTPUT_SHARE := rounded_nonneg _ _ (mul_nonneg ho hrest.le)
  have hsum := (rounded_eq_zero CTX_DIGITS (by decide) _).mp h
  have hinput := (rounded_eq_zero CTX_DIGITS (by decide) _).mp (by linarith : times input INPUT_SHARE = 0)
  have houtput := (rounded_eq_zero CTX_DIGITS (by decide) _).mp (by linarith : times output OUTPUT_SHARE = 0)
  exact ⟨(mul_eq_zero.mp hinput).resolve_right hshare.ne', (mul_eq_zero.mp houtput).resolve_right hrest.ne'⟩

theorem blendOf_zero : blendOf 0 0 = 0 := by
  unfold blendOf
  rw [times_zero 0 _ (.inl rfl), times_zero 0 _ (.inl rfl)]
  exact (rounded_eq_zero CTX_DIGITS (by decide) _).mpr (add_zero 0)

theorem discounted_zero (card : RateCard) : discounted 0 card = 0 := by
  unfold discounted
  split_ifs
  · rfl
  · exact times_zero _ _ (.inl rfl)

theorem inHousePrice_plain (found : Selection) (h : inHousePrice usage = some found) : found.blendCard = none := by
  unfold inHousePrice at h
  split_ifs at h
  cases h
  rfl

theorem fallbackPrice_plain (found : Selection) (h : fallbackPrice env usage = some found) :
    found.blendCard = none := by
  unfold fallbackPrice at h
  by_cases htokens : usage.usageType ≠ "llm_tokens"
  · rw [if_pos htokens] at h
    cases h
  · rw [if_neg htokens] at h
    dsimp only at h
    split at h
    · cases h
    · split at h
      · cases h
      · split_ifs at h <;> cases h <;> rfl

theorem blendCandidate_selection (index : ℕ) (divisor : Option ℕ) (input output : Bool × RateCard)
    (item : RankKey × Selection) (h : blendCandidate env usage index divisor input output = some item) :
    item.2.card = some input.2 ∧ item.2.blendCard = some output.2 ∧
      item.2.unitPrice = blendOf input.2.unitPrice output.2.unitPrice := by
  unfold blendCandidate at h
  by_cases hapart : input.1 ≠ output.1 ∨ input.2.currency ≠ output.2.currency
  · rw [if_pos hapart] at h
    cases h
  · rw [if_neg hapart] at h
    cases h
    exact ⟨rfl, rfl, rfl⟩

-- What a selection of two cards is.
theorem selection_blend (cards : List RateCard) (found : Selection) (h : selection env usage cards = some found)
    (blendCard : RateCard) (hblend : found.blendCard = some blendCard) :
    blendCard ∈ cards ∧ ∃ card ∈ cards, found.card = some card ∧
      found.unitPrice = blendOf card.unitPrice blendCard.unitPrice := by
  unfold selection at h
  cases hselect : selectPrice env usage cards with
  | none =>
      rw [hselect] at h
      have hplain : found.blendCard = none := by
        cases hfallback : fallbackPrice env usage with
        | none =>
            rw [hfallback] at h
            exact inHousePrice_plain usage found h
        | some fallback =>
            rw [hfallback] at h
            exact fallbackPrice_plain env usage found (hfallback.trans h)
      rw [hplain] at hblend
      cases hblend
  | some selected =>
      rw [hselect] at h
      obtain rfl : selected = found := Option.some.inj h
      obtain ⟨item, hitem, rfl⟩ := Option.map_eq_some_iff.mp hselect
      have hmem := List.mem_mergeSort.mp (List.mem_of_mem_head? hitem)
      obtain ⟨path, index, _, hranked⟩ := mem_ranked env usage cards item hmem
      cases hranked with
      | blend input output _ hinput houtput hcandidate _ =>
          obtain ⟨hcard, hother, hprice⟩ := blendCandidate_selection env usage _ _ input output item hcandidate
          rw [hother] at hblend
          rw [← Option.some.inj hblend]
          exact ⟨(mem_candidatesFor usage cards _ output houtput).1, input.2,
            (mem_candidatesFor usage cards _ input hinput).1, hcard, hprice⟩
      | card other _ _ hcandidate _ =>
          obtain ⟨price, _, rfl⟩ := Option.map_eq_some_iff.mp hcandidate
          cases hblend

-- A price of zero charges nothing.
theorem charged_zero (rows : Cards) (hprices : ∀ card ∈ rows.rows, 0 ≤ card.unitPrice) (cards : List RateCard)
    (hcards : ∀ card ∈ cards, card ∈ rows.rows) (found : Selection) (h : selection env usage cards = some found)
    (hzero : found.unitPrice = 0) : chargedUnitPrice usage found = 0 := by
  unfold chargedUnitPrice
  cases hcard : found.card with
  | none => exact hzero
  | some card =>
      dsimp only
      split_ifs
      · exact hzero
      · cases hblend : found.blendCard with
        | none =>
            dsimp only
            rw [hzero]
            exact discounted_zero card
        | some blendCard =>
            obtain ⟨hin, input, hinput, hfound, hprice⟩ := selection_blend env usage cards found h blendCard hblend
            rw [hcard] at hfound
            rw [hprice] at hzero
            obtain ⟨hfirst, hsecond⟩ := blendOf_eq_zero _ _ (hprices _ (hcards _ hinput)) (hprices _ (hcards _ hin))
              hzero
            dsimp only
            rw [Option.some.inj hfound, hfirst, hsecond, discounted_zero, discounted_zero]
            exact blendOf_zero

theorem quantize_zero : quantize 0 = some 0 := by
  have hzero : quantized AMOUNT_PLACES 0 = 0 := by simp [quantized, halfEven]
  unfold quantize
  rw [hzero]
  norm_num [CTX_DIGITS]

-- Only a usage of some quantity at some price comes to an amount.
theorem amount_needs (rows : Cards) (hprices : ∀ card ∈ rows.rows, 0 ≤ card.unitPrice) (cards : List RateCard)
    (hcards : ∀ card ∈ cards, card ∈ rows.rows) (found : Selection) (h : selection env usage cards = some found)
    (amount : ℚ) (ha : amountOf usage found = some amount) (hne : amount ≠ 0) :
    found.unitPrice ≠ 0 ∧ usage.quantity ≠ 0 := by
  have hnone : times (rounded CTX_DIGITS (usage.quantity / found.divisor)) (chargedUnitPrice usage found) ≠ 0 := by
    intro hzero
    rw [amountOf, hzero, quantize_zero] at ha
    exact hne (Option.some.inj ha).symm
  constructor
  · intro hzero
    exact hnone (times_zero _ _ (.inr (charged_zero env usage rows hprices cards hcards found h hzero)))
  · intro hzero
    refine hnone (times_zero _ _ (.inl ?_))
    rw [hzero, zero_div]
    exact (rounded_eq_zero CTX_DIGITS (by decide) 0).mpr rfl

end Needs

section Batches

variable (env : PricingEnv) (tables : PricingTables)

theorem foldl_min_le (usages : List Usage) (start : Date) : usages.foldl (fun start usage => min start usage.on) start ≤
    start ∧ ∀ usage ∈ usages, usages.foldl (fun start usage => min start usage.on) start ≤ usage.on := by
  induction usages generalizing start with
  | nil => exact ⟨le_refl _, nofun⟩
  | cons first rest ih =>
      obtain ⟨hstart, hrest⟩ := ih (min start first.on)
      refine ⟨hstart.trans (min_le_left _ _), fun usage hu => ?_⟩
      rcases List.mem_cons.mp hu with rfl | hu
      · exact hstart.trans (min_le_right _ _)
      · exact hrest usage hu

theorem le_foldl_max (usages : List Usage) (stop : Date) : stop ≤ usages.foldl (fun stop usage => max stop usage.on) stop ∧
    ∀ usage ∈ usages, usage.on ≤ usages.foldl (fun stop usage => max stop usage.on) stop := by
  induction usages generalizing stop with
  | nil => exact ⟨le_refl _, nofun⟩
  | cons first rest ih =>
      obtain ⟨hstop, hrest⟩ := ih (max stop first.on)
      refine ⟨(le_max_left _ _).trans hstop, fun usage hu => ?_⟩
      rcases List.mem_cons.mp hu with rfl | hu
      · exact (le_max_right _ _).trans hstop
      · exact hrest usage hu

theorem mem_loadCards (providers usageTypes : List String) (start stop : Date) (card : RateCard)
    (h : card ∈ loadCards tables providers usageTypes start stop) : card ∈ tables.cards.rows :=
  List.mem_of_mem_filter ((tables.listedPerm _).mem_iff.mp h)

-- The cards of a window that a usage's day is in hold its candidates.
theorem loadCards_candidates (providers usageTypes : List String) (start stop : Date) (usage : Usage)
    (hprovider : usage.provider ∈ providers) (htype : usage.usageType ∈ usageTypes) (hstart : start ≤ usage.on)
    (hstop : usage.on ≤ stop) (unit : String) :
    (candidatesFor usage (loadCards tables providers usageTypes start stop) unit).Perm
      (candidatesFor usage tables.cards.rows unit) := by
  refine (candidatesFor_perm usage _ _ unit (tables.listedPerm _)).trans (.of_eq ?_)
  refine candidatesFor_filter usage _ unit _ fun card _ hactive hforce hcardProvider hcardType => ?_
  rw [inForce, Bool.and_eq_true, decide_eq_true_eq] at hforce
  have hbefore : before start card.effectiveTo = true := by
    cases hto : card.effectiveTo with
    | none => rfl
    | some bound =>
        rw [hto] at hforce
        exact decide_eq_true (hstart.trans_lt (of_decide_eq_true hforce.2))
  rw [hactive, hcardProvider, hcardType, hbefore, List.contains_iff_mem.mpr hprovider, List.contains_iff_mem.mpr htype,
    decide_eq_true (hforce.1.trans hstop)]
  rfl

theorem lookup_asked (keys : List (String × Date)) (f : String × Date → Option FxRate) (key : String × Date)
    (h : key ∈ keys) : (keys.map fun key => (key, f key)).lookup key = some (f key) := by
  induction keys with
  | nil => cases h
  | cons first rest ih =>
      rw [List.map_cons, List.lookup_cons]
      by_cases hkey : key = first
      · rw [hkey, beq_self_eq_true]
      · rw [beq_false_of_ne hkey]
        exact ih ((List.mem_cons.mp h).resolve_left hkey)

-- A usage is priced alike against cards with its candidates and rates with the one it needs.
theorem priceWith_eq (usage : Usage) (cards others : List RateCard) (hcards : ∀ card ∈ cards, card ∈ tables.cards.rows)
    (hothers : ∀ card ∈ others, card ∈ tables.cards.rows)
    (hperm : ∀ unit, (candidatesFor usage cards unit).Perm (candidatesFor usage others unit))
    (rateFor otherRate : String → Option FxRate)
    (hrate : ∀ key ∈ neededRate env cards usage, rateFor key.1 = otherRate key.1) :
    priceWith env usage cards rateFor = priceWith env usage others otherRate := by
  have hselect := selection_eq env usage tables.cards cards others hcards hothers hperm
  unfold priceWith
  rw [← hselect]
  cases hfound : selection env usage cards with
  | none => rfl
  | some found =>
      dsimp only
      refine Option.bind_congr fun amount hamount => ?_
      by_cases hneeds : found.currency ≠ REPORTING_CURRENCY ∧ amount ≠ 0
      · obtain ⟨hprice, hquantity⟩ := amount_needs env usage tables.cards tables.prices cards hcards found hfound
          amount hamount hneeds.2
        have hkey : (found.currency, usage.fxOn) ∈ neededRate env cards usage := by
          rw [neededRate, hfound, Option.bind_some, if_pos ⟨hneeds.1, hprice, hquantity⟩]
          rfl
        rw [if_pos hneeds, if_pos hneeds, hrate _ hkey]
      · rw [if_neg hneeds, if_neg hneeds]

theorem mapM_congr {α β : Type} (f g : α → Option β) (xs : List α) (h : ∀ x ∈ xs, f x = g x) :
    xs.mapM f = xs.mapM g := by
  induction xs with
  | nil => rfl
  | cons x rest ih =>
      rw [List.mapM_cons, List.mapM_cons, h x List.mem_cons_self, ih fun y hy => h y (List.mem_cons_of_mem _ hy)]

-- The price of a usage against all cards and any rate.
def priceFully (full : List RateCard) (usage : Usage) : Option Priced :=
  priceWith env (throughAliases tables.names usage) full fun currency => tables.rateOn currency usage.fxOn

theorem priceMany_fully (full : List RateCard) (hfull : full.Perm tables.cards.rows) (usages : List Usage) :
    priceMany env tables usages = usages.mapM (priceFully env tables full) := by
  have hthrough : usages.mapM (priceFully env tables full) = (usages.map (throughAliases tables.names)).mapM
      fun usage => priceWith env usage full fun currency => tables.rateOn currency usage.fxOn := by
    rw [List.mapM_map]
    rfl
  rw [hthrough]
  unfold priceMany
  cases usages.map (throughAliases tables.names) with
  | nil => rfl
  | cons first rest =>
      dsimp only
      refine mapM_congr _ _ _ fun usage husage => ?_
      obtain ⟨hstart, hstarts⟩ := foldl_min_le rest first.on
      obtain ⟨hstop, hstops⟩ := le_foldl_max rest first.on
      have hwindow : rest.foldl (fun start usage => min start usage.on) first.on ≤ usage.on ∧
          usage.on ≤ rest.foldl (fun stop usage => max stop usage.on) first.on := by
        rcases List.mem_cons.mp husage with rfl | hrest
        · exact ⟨hstart, hstop⟩
        · exact ⟨hstarts usage hrest, hstops usage hrest⟩
      refine priceWith_eq env tables usage _ full (fun card => mem_loadCards tables _ _ _ _ card)
        (fun card hcard => hfull.mem_iff.mp hcard) (fun unit => ?_) _ _ fun key hkey => ?_
      · exact (loadCards_candidates tables _ _ _ _ usage (List.mem_map_of_mem husage) (List.mem_map_of_mem husage)
          hwindow.1 hwindow.2 unit).trans (candidatesFor_perm usage _ _ unit hfull.symm)
      · have hasked := List.mem_eraseDups.mpr (List.mem_filterMap.mpr ⟨usage, husage, hkey⟩)
        have hdate : key.2 = usage.fxOn := by
          obtain ⟨found, _, hfound⟩ := Option.bind_eq_some_iff.mp hkey
          split_ifs at hfound
          rw [← Option.some.inj hfound]
        rw [← hdate, lookup_asked _ (fun key => tables.rateOn key.1 key.2) key hasked]
        rfl

-- A batch prices each usage as it is priced alone, and as it is against all cards and any rate.
theorem priceMany_eq (usages : List Usage) : priceMany env tables usages = usages.mapM (price env tables) ∧
    ∀ full : List RateCard, full.Perm tables.cards.rows → ∀ usage, price env tables usage =
      priceWith env (throughAliases tables.names usage) full fun currency => tables.rateOn currency usage.fxOn := by
  have halone : ∀ full : List RateCard, full.Perm tables.cards.rows → ∀ usage,
      price env tables usage = priceFully env tables full usage := by
    intro full hfull usage
    rw [price, priceMany_fully env tables full hfull, List.mapM_cons, List.mapM_nil]
    cases priceFully env tables full usage <;> rfl
  refine ⟨?_, halone⟩
  rw [priceMany_fully env tables tables.cards.rows (List.Perm.refl _)]
  exact mapM_congr _ _ usages fun usage _ => (halone _ (List.Perm.refl _) usage).symm

end Batches

end AgenticOrg.Spend.Pricing
