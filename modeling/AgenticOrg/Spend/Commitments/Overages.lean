import AgenticOrg.Lib.Decimal.Bounds
import AgenticOrg.Spend.Commitments.Replays
import AgenticOrg.Spend.Rollups.Theorems

namespace AgenticOrg.Spend

open Decimals Replay

section Definitions

variable (env : DrawEnv)

-- What a record draws from a commitment, in record units or in the currency of the commitment.
def drawnFrom (terms : Terms) (record : UsageRecord) : Option ℚ :=
  match terms.pledge with
  | .quantity _ _ _ => some (decimalQuantity record.quantity)
  | .money _ _ currency =>
      match record.amount, record.dims.currency with
      | some amount, some own => drawnAmount env record amount own (env.strip currency) (moneyRate env record terms)
      | _, _ => none

-- The total that moves, and where its capacity is.
def Terms.position (terms : Terms) (state : Drawn) : ℚ :=
  match terms.pledge with
  | .quantity _ _ _ => state.quantity
  | .money _ _ _ => state.amount

def Terms.capacity (terms : Terms) : ℚ :=
  match terms.pledge with
  | .quantity _ unit committed => capacityOf unit committed
  | .money _ committed _ => decimalAmount committed

def Terms.places (terms : Terms) : ℕ :=
  match terms.pledge with
  | .quantity _ _ _ => QTY_PLACES
  | .money _ _ _ => AMOUNT_PLACES

-- The part of the record's draw past the capacity, as `draw` takes it before it is quantised or shared out.
def overageOf (terms : Terms) (state : Drawn) (record : UsageRecord) : ℚ :=
  match drawnFrom env terms record with
  | none => 0
  | some drawn => overage (terms.position state) drawn terms.capacity

def drawNext (terms : Terms) (state : Drawn) (record : UsageRecord) : Drawn × (ℚ × Assignment) :=
  let drawn := draw env record terms state (moneyRate env record terms)
  (drawn.1, overageOf env terms state record, drawn.2)

-- The records drawn in turn: the final totals, and each record's overage and what is stored of it.
def drawEach (terms : Terms) (records : List UsageRecord) : Drawn × List (ℚ × Assignment) :=
  replay (drawNext env terms) .zero records

def drawnTotal (terms : Terms) (records : List UsageRecord) : ℚ :=
  (records.map fun record => (drawnFrom env terms record).getD 0).sum

end Definitions

section Positions

-- How far a total is past the capacity.
def pastCapacity (capacity total : ℚ) : ℚ := max 0 (total - capacity)

theorem pastCapacity_step (capacity before drawn : ℚ) (hd : 0 ≤ drawn) :
    max 0 (before + drawn - max capacity before) =
      pastCapacity capacity (before + drawn) - pastCapacity capacity before := by
  unfold pastCapacity
  rcases le_total capacity before with hc | hc
  · rw [max_eq_right hc, max_eq_right (by linarith), max_eq_right (by linarith), max_eq_right (by linarith)]
    ring
  · rw [max_eq_left hc, max_eq_left (a := 0) (b := before - capacity) (by linarith), sub_zero]

theorem pastCapacity_mono (capacity before after : ℚ) (h : before ≤ after) :
    pastCapacity capacity before ≤ pastCapacity capacity after :=
  max_le_max le_rfl (by linarith)

theorem pastCapacity_lipschitz (capacity before drawn : ℚ) (hd : 0 ≤ drawn) :
    pastCapacity capacity (before + drawn) - pastCapacity capacity before ≤ drawn := by
  rw [← pastCapacity_step capacity before drawn hd]
  exact max_le hd (by linarith [le_max_right capacity before])

theorem pastCapacity_multiple (power : ℤ) (capacity total : ℚ) (hc : Multiple power capacity)
    (ht : Multiple power total) : Multiple power (pastCapacity capacity total) := by
  unfold pastCapacity
  rcases max_choice 0 (total - capacity) with h | h <;> rw [h]
  · exact Multiple.zero power
  · exact ht.sub power total capacity hc

-- A capacity counts as it is wherever a total that the digits hold can reach it.
structure Reached (power : ℤ) (exact kept : ℚ) : Prop where
  below : ∀ total : ℚ, total < 10 ^ (DEFAULT_DIGITS + power) → total ≤ exact → total ≤ kept
  same : exact < 10 ^ (DEFAULT_DIGITS + power) → kept = exact
  multiple : Multiple power exact

theorem overage_exact (power : ℤ) (exact kept before drawn : ℚ) (hc : Reached power exact kept)
    (hb : 0 ≤ before) (hd : 0 ≤ drawn) (hbm : Multiple power before) (hdm : Multiple power drawn)
    (hlt : before + drawn < 10 ^ (DEFAULT_DIGITS + power)) :
    plus DEFAULT_DIGITS before drawn = before + drawn ∧
      overage before drawn kept = pastCapacity exact (before + drawn) - pastCapacity exact before := by
  have hsum := Multiple.add power before drawn hbm hdm
  have hplus : plus DEFAULT_DIGITS before drawn = before + drawn :=
    rounded_of_multiple DEFAULT_DIGITS power _ hsum (by rwa [abs_of_nonneg (by linarith)])
  refine ⟨hplus, ?_⟩
  rw [overage, hplus]
  by_cases hin : before + drawn ≤ exact
  · -- nothing is past the capacity
    have hkept := hc.below _ hlt hin
    have hneg : before + drawn - max kept before ≤ 0 := by linarith [le_max_left kept before]
    rw [max_eq_left (rounded_nonpos DEFAULT_DIGITS _ hneg), pastCapacity, pastCapacity, max_eq_left (by linarith),
      max_eq_left (by linarith), sub_zero]
  · rw [not_le] at hin
    rw [hc.same (by linarith), ← pastCapacity_step exact before drawn hd]
    have hmax : Multiple power (max exact before) := by
      rcases max_choice exact before with he | he <;> rw [he]
      · exact hc.multiple
      · exact hbm
    have hdiff : Multiple power (before + drawn - max exact before) := hsum.sub power _ _ hmax
    have hnonneg : 0 ≤ before + drawn - max exact before := by
      rcases max_choice exact before with he | he <;> rw [he] <;> linarith
    rw [rounded_of_multiple DEFAULT_DIGITS power _ hdiff]
    rw [abs_of_nonneg hnonneg]
    linarith [le_max_right exact before]

theorem reached_rounded (power : ℤ) (exact : ℚ) (hm : Multiple power exact) (hexact : 0 ≤ exact) :
    Reached power exact (rounded DEFAULT_DIGITS exact) where
  below := by
    intro total hlt hle
    by_cases hin : exact < 10 ^ (DEFAULT_DIGITS + power)
    · rwa [rounded_of_multiple DEFAULT_DIGITS power exact hm (by rwa [abs_of_nonneg hexact])]
    · exact hlt.le.trans (le_rounded DEFAULT_DIGITS (by decide) power exact (not_lt.mp hin))
  same := fun hin => rounded_of_multiple DEFAULT_DIGITS power exact hm (by rwa [abs_of_nonneg hexact])
  multiple := hm

end Positions

section Terms

-- The capacity as it is, before it is kept to the digits.
def Terms.fullCapacity (terms : Terms) : ℚ :=
  match terms.pledge with
  | .quantity _ unit committed => decimalQuantity committed * CANONICAL_DIVISOR unit
  | .money _ committed _ => decimalAmount committed

theorem decimalQuantity_multiple (units : ℕ) : Multiple (-(QTY_PLACES : ℤ)) (decimalQuantity units) :=
  multiple_div QTY_PLACES units

theorem decimalAmount_multiple (units : ℕ) : Multiple (-(AMOUNT_PLACES : ℤ)) (decimalAmount units) :=
  multiple_div AMOUNT_PLACES units

theorem divisor_natural (unit : CardUnit) : ∃ n : ℕ, CANONICAL_DIVISOR unit = n := by
  have hdivisor : CANONICAL_DIVISOR unit = 1000000 ∨ CANONICAL_DIVISOR unit = 1 := by
    cases unit <;> simp [CANONICAL_DIVISOR]
  rcases hdivisor with h | h
  · exact ⟨1000000, by rw [h]; norm_num⟩
  · exact ⟨1, by rw [h]; norm_num⟩

theorem fullCapacity_nonneg (terms : Terms) : 0 ≤ terms.fullCapacity := by
  unfold Terms.fullCapacity
  cases terms.pledge with
  | quantity usageType unit committed =>
      obtain ⟨n, hn⟩ := divisor_natural unit
      dsimp only
      rw [hn]
      exact mul_nonneg (decimalQuantity_nonneg committed) (Nat.cast_nonneg n)
  | money usageType committed currency => exact decimalAmount_nonneg committed

theorem reached_capacity (terms : Terms) : Reached (-(terms.places : ℤ)) terms.fullCapacity terms.capacity := by
  unfold Terms.places Terms.fullCapacity Terms.capacity
  cases terms.pledge with
  | quantity usageType unit committed =>
      obtain ⟨n, hn⟩ := divisor_natural unit
      simp only [hn]
      have hmultiple := (decimalQuantity_multiple committed).mul_natCast _ _ n
      have hnonneg : 0 ≤ decimalQuantity committed * n :=
        mul_nonneg (decimalQuantity_nonneg committed) (Nat.cast_nonneg n)
      have hreached := reached_rounded _ _ hmultiple hnonneg
      rw [capacityOf, hn]
      exact hreached
  | money usageType committed currency =>
      exact ⟨fun _ _ hle => hle, fun _ => rfl, decimalAmount_multiple committed⟩

variable (env : DrawEnv) (hrates : ∀ currency day rate, env.rateToInr currency day = some rate → 0 < rate)

include hrates

theorem drawnAmount_sound (record : UsageRecord) (terms : Terms) (amount : ℕ) (own target : String) (drawn : ℚ)
    (h : drawnAmount env record amount own target (moneyRate env record terms) = some drawn) :
    0 ≤ drawn ∧ Multiple (-(AMOUNT_PLACES : ℤ)) drawn := by
  unfold drawnAmount at h
  split at h
  · rw [← Option.some.inj h]
    exact ⟨decimalAmount_nonneg amount, decimalAmount_multiple amount⟩
  split at h
  · cases h
  rename_i inr _
  split at h
  · rw [← Option.some.inj h]
    exact ⟨decimalAmount_nonneg inr, decimalAmount_multiple inr⟩
  split at h
  · cases h
  rename_i rate hrate
  split at h
  · rw [← Option.some.inj h]
    have hpos : 0 < rate := by
      unfold moneyRate at hrate
      split at hrate
      · cases hrate
      · dsimp only at hrate
        split at hrate
        · exact hrates _ _ rate hrate
        · cases hrate
    refine ⟨?_, quantized_multiple AMOUNT_PLACES _⟩
    exact quantized_nonneg _ _ (rounded_nonneg DEFAULT_DIGITS _ (div_nonneg (decimalAmount_nonneg inr) hpos.le))
  · cases h

theorem drawnFrom_sound (terms : Terms) (record : UsageRecord) (drawn : ℚ)
    (h : drawnFrom env terms record = some drawn) : 0 ≤ drawn ∧ Multiple (-(terms.places : ℤ)) drawn := by
  unfold drawnFrom at h
  unfold Terms.places
  cases hp : terms.pledge with
  | quantity usageType unit committed =>
      simp only [hp] at h
      rw [← Option.some.inj h]
      exact ⟨decimalQuantity_nonneg record.quantity, decimalQuantity_multiple record.quantity⟩
  | money usageType committed currency =>
      simp only [hp] at h
      split at h
      · exact drawnAmount_sound env hrates record terms _ _ _ drawn h
      · cases h

end Terms

section Steps

variable (env : DrawEnv)

-- The records that are counted as undrawn.
def undrawnOf (terms : Terms) (record : UsageRecord) : ℕ :=
  match terms.pledge with
  | .quantity _ _ _ => 0
  | .money _ _ _ =>
      if record.amount.isSome && record.dims.currency.isSome && (drawnFrom env terms record).isNone then 1 else 0

def Terms.moved (terms : Terms) (state : Drawn) (drawn : ℚ) (undrawn : ℕ) : Drawn :=
  match terms.pledge with
  | .quantity _ _ _ => { state with quantity := state.quantity + drawn, undrawn := state.undrawn + undrawn }
  | .money _ _ _ => { state with amount := state.amount + drawn, undrawn := state.undrawn + undrawn }

theorem position_moved (terms : Terms) (state : Drawn) (drawn : ℚ) (undrawn : ℕ) :
    terms.position (terms.moved state drawn undrawn) = terms.position state + drawn := by
  unfold Terms.position Terms.moved
  cases terms.pledge <;> rfl

theorem moved_moved (terms : Terms) (state : Drawn) (a b : ℚ) (m n : ℕ) :
    terms.moved (terms.moved state a m) b n = terms.moved state (a + b) (m + n) := by
  unfold Terms.moved
  cases terms.pledge <;> simp only [add_assoc]

theorem moved_nothing (terms : Terms) (state : Drawn) : terms.moved state 0 0 = state := by
  unfold Terms.moved
  cases terms.pledge <;> simp

theorem decimalQuantity_millionths (x : ℚ) (hm : Multiple (-(QTY_PLACES : ℤ)) x) (hx : 0 ≤ x) :
    decimalQuantity (millionths x) = x := by
  obtain ⟨n, rfl⟩ := hm
  have hpow : (0 : ℚ) < 10 ^ (-(QTY_PLACES : ℤ)) := zpow_pos (by norm_num) _
  have hn : 0 ≤ n := by exact_mod_cast nonneg_of_mul_nonneg_left hx hpow
  have hscaled : (n : ℚ) * 10 ^ (-(QTY_PLACES : ℤ)) * 10 ^ QTY_PLACES = n := by
    rw [mul_assoc, zpow_neg, zpow_natCast, inv_mul_cancel₀ (by positivity), mul_one]
  rw [millionths, hscaled, halfEven_intCast, decimalQuantity, zpow_neg, zpow_natCast, div_eq_mul_inv]
  congr 1
  exact_mod_cast Int.toNat_of_nonneg hn

theorem millionths_le (x : ℚ) (units : ℕ) (hm : Multiple (-(QTY_PLACES : ℤ)) x) (hx : 0 ≤ x)
    (hle : x ≤ decimalQuantity units) : millionths x ≤ units := by
  rw [← decimalQuantity_millionths x hm hx, decimalQuantity, decimalQuantity,
    div_le_div_iff_of_pos_right (by positivity)] at hle
  exact_mod_cast hle

theorem overageShare_bounds (units : ℕ) (amount past : ℚ) (ha : 0 ≤ amount) (hp : 0 ≤ past) :
    millionths (overageShare (decimalQuantity units) amount past) ≤ units := by
  have hratio : 0 ≤ rounded DEFAULT_DIGITS (rounded DEFAULT_DIGITS (decimalQuantity units * past) / amount) :=
    rounded_nonneg _ _ (div_nonneg (rounded_nonneg _ _ (mul_nonneg (decimalQuantity_nonneg units) hp)) ha)
  have hshare := quantized_nonneg QTY_PLACES _ hratio
  refine millionths_le _ units ?_ ?_ (min_le_left _ _)
  · unfold overageShare
    rcases min_choice (decimalQuantity units) (quantized QTY_PLACES
      (rounded DEFAULT_DIGITS (rounded DEFAULT_DIGITS (decimalQuantity units * past) / amount))) with h | h <;> rw [h]
    · exact decimalQuantity_multiple units
    · exact quantized_multiple QTY_PLACES _
  · exact le_min (decimalQuantity_nonneg units) hshare

-- A total that the digits hold.
structure Fits (terms : Terms) (total : ℚ) : Prop where
  nonneg : 0 ≤ total
  multiple : Multiple (-(terms.places : ℤ)) total
  below : total < 10 ^ (DEFAULT_DIGITS - terms.places : ℤ)

-- What one draw does while the totals fit.
structure DrawsExactly (terms : Terms) (state : Drawn) (record : UsageRecord) : Prop where
  state_eq : (drawNext env terms state record).1 =
    terms.moved state ((drawnFrom env terms record).getD 0) (undrawnOf env terms record)
  overage_eq : (drawNext env terms state record).2.1 =
    pastCapacity terms.fullCapacity (terms.position state + (drawnFrom env terms record).getD 0) -
      pastCapacity terms.fullCapacity (terms.position state)
  stored_eq : terms.pledge.kind = .quantity →
    decimalQuantity (drawNext env terms state record).2.2.overageQuantity = (drawNext env terms state record).2.1
  stored_le : (drawNext env terms state record).2.2.overageQuantity ≤ record.quantity

theorem Fits.overage_eq (terms : Terms) (state : Drawn) (drawn : ℚ) (hs : Fits terms (terms.position state))
    (hd : 0 ≤ drawn) (hdm : Multiple (-(terms.places : ℤ)) drawn) (hf : Fits terms (terms.position state + drawn)) :
    plus DEFAULT_DIGITS (terms.position state) drawn = terms.position state + drawn ∧
      overage (terms.position state) drawn terms.capacity =
        pastCapacity terms.fullCapacity (terms.position state + drawn) -
          pastCapacity terms.fullCapacity (terms.position state) :=
  overage_exact _ _ _ _ drawn (reached_capacity terms) hs.nonneg hd hs.multiple hdm hf.below

theorem drawNext_quantity (terms : Terms) (usageType : String) (unit : CardUnit) (committed : ℕ)
    (hp : terms.pledge = .quantity usageType unit committed) (state : Drawn) (record : UsageRecord)
    (hs : Fits terms (terms.position state))
    (hf : Fits terms (terms.position state + (drawnFrom env terms record).getD 0)) :
    DrawsExactly env terms state record := by
  have hdrawn : drawnFrom env terms record = some (decimalQuantity record.quantity) := by
    rw [drawnFrom, hp]
  have hplaces : terms.places = QTY_PLACES := by rw [Terms.places, hp]
  have hposition : terms.position state = state.quantity := by rw [Terms.position, hp]
  have hcapacity : terms.capacity = capacityOf unit committed := by rw [Terms.capacity, hp]
  rw [hdrawn, Option.getD_some] at hf
  obtain ⟨hplus, hpast⟩ := hs.overage_eq terms state _ (decimalQuantity_nonneg record.quantity)
    (by rw [hplaces]; exact decimalQuantity_multiple record.quantity) hf
  have hover : overageOf env terms state record =
      overage (terms.position state) (decimalQuantity record.quantity) terms.capacity := by
    rw [overageOf, hdrawn]
  have hnext : drawNext env terms state record =
      ({ state with quantity := plus DEFAULT_DIGITS state.quantity (decimalQuantity record.quantity) },
        overageOf env terms state record, ⟨some terms.id, 0 < overageOf env terms state record,
          millionths (overageOf env terms state record)⟩) := by
    rw [hover, hposition, hcapacity, drawNext, draw, hover, hposition, hcapacity, hp]
    rfl
  have hnonneg : 0 ≤ overageOf env terms state record := by
    rw [hover]
    exact le_max_left _ _
  have hmultiple : Multiple (-(QTY_PLACES : ℤ)) (overageOf env terms state record) := by
    have hfull := (reached_capacity terms).multiple
    rw [hover, hpast, ← hplaces]
    exact (pastCapacity_multiple _ _ _ hfull hf.multiple).sub _ _ _ (pastCapacity_multiple _ _ _ hfull hs.multiple)
  have hle : overageOf env terms state record ≤ decimalQuantity record.quantity := by
    rw [hover, hpast]
    exact pastCapacity_lipschitz _ _ _ (decimalQuantity_nonneg record.quantity)
  refine ⟨?_, ?_, fun _ => ?_, ?_⟩
  · rw [hnext, hdrawn, undrawnOf, Terms.moved, hp, ← hposition, hplus]
    rfl
  · rw [hnext, hdrawn, hover, hpast]
    rfl
  · rw [hnext]
    exact decimalQuantity_millionths _ hmultiple hnonneg
  · rw [hnext]
    exact millionths_le _ _ hmultiple hnonneg hle

variable (hrates : ∀ currency day rate, env.rateToInr currency day = some rate → 0 < rate)

include hrates

theorem drawNext_money (terms : Terms) (usageType : Option String) (committed : ℕ) (currency : String)
    (hp : terms.pledge = .money usageType committed currency) (state : Drawn) (record : UsageRecord)
    (hs : Fits terms (terms.position state))
    (hf : Fits terms (terms.position state + (drawnFrom env terms record).getD 0)) :
    DrawsExactly env terms state record := by
  have hkind : terms.pledge.kind ≠ .quantity := by
    rw [hp]
    exact nofun
  have hposition : terms.position state = state.amount := by rw [Terms.position, hp]
  have hcapacity : terms.capacity = decimalAmount committed := by rw [Terms.capacity, hp]
  cases hdrawn : drawnFrom env terms record with
  | none =>
      have hdraw : draw env record terms state (moneyRate env record terms) =
          ({ state with undrawn := state.undrawn + undrawnOf env terms record }, .unassigned) := by
        have hnone := hdrawn
        rw [undrawnOf, hdrawn]
        unfold draw
        unfold drawnFrom at hnone
        rw [hp] at hnone ⊢
        dsimp only at hnone ⊢
        cases ha : record.amount with
        | none => rfl
        | some amount =>
            cases hc : record.dims.currency with
            | none => rfl
            | some own =>
                rw [ha, hc] at hnone
                dsimp only at hnone ⊢
                rw [hnone]
                rfl
      refine ⟨?_, ?_, fun h => absurd h hkind, ?_⟩
      · rw [drawNext, hdraw, hdrawn, Terms.moved, hp]
        simp
      · rw [drawNext, overageOf, hdrawn]
        simp
      · rw [drawNext, hdraw]
        exact Nat.zero_le _
  | some drawn =>
      obtain ⟨hnonneg, hmultiple⟩ := drawnFrom_sound env hrates terms record drawn hdrawn
      rw [hdrawn, Option.getD_some] at hf
      obtain ⟨hplus, hpast⟩ := hs.overage_eq terms state drawn hnonneg hmultiple hf
      have hover : overageOf env terms state record = overage (terms.position state) drawn terms.capacity := by
        rw [overageOf, hdrawn]
      have hdraw : draw env record terms state (moneyRate env record terms) =
          drawAmount record terms.id committed drawn state := by
        have hsome := hdrawn
        unfold draw
        unfold drawnFrom at hsome
        rw [hp] at hsome ⊢
        dsimp only at hsome ⊢
        cases ha : record.amount with
        | none =>
            rw [ha] at hsome
            cases hsome
        | some amount =>
            cases hc : record.dims.currency with
            | none =>
                rw [ha, hc] at hsome
                cases hsome
            | some own =>
                rw [ha, hc] at hsome
                dsimp only at hsome ⊢
                rw [hsome]
      refine ⟨?_, ?_, fun h => absurd h hkind, ?_⟩
      · have hstate : (drawAmount record terms.id committed drawn state).1 =
            { state with amount := plus DEFAULT_DIGITS state.amount drawn } := by
          unfold drawAmount
          dsimp only
          split <;> rfl
        rw [drawNext, hdraw, hdrawn, hstate, undrawnOf, hdrawn, Terms.moved, hp, ← hposition, hplus]
        simp
      · rw [drawNext, hover, hpast, hdrawn]
        rfl
      · rw [drawNext, hdraw, drawAmount]
        dsimp only
        split
        · exact Nat.zero_le _
        · exact overageShare_bounds record.quantity drawn _ hnonneg (le_max_left _ _)

theorem drawNext_exact (terms : Terms) (state : Drawn) (record : UsageRecord)
    (hs : Fits terms (terms.position state))
    (hf : Fits terms (terms.position state + (drawnFrom env terms record).getD 0)) :
    DrawsExactly env terms state record := by
  cases hp : terms.pledge with
  | quantity usageType unit committed => exact drawNext_quantity env terms usageType unit committed hp state record hs hf
  | money usageType committed currency =>
      exact drawNext_money env hrates terms usageType committed currency hp state record hs hf

end Steps

section Runs

variable (env : DrawEnv) (hrates : ∀ currency day rate, env.rateToInr currency day = some rate → 0 < rate)
variable (terms : Terms)

theorem drawnPart_sound (hrates : ∀ currency day rate, env.rateToInr currency day = some rate → 0 < rate)
    (record : UsageRecord) : 0 ≤ (drawnFrom env terms record).getD 0 ∧
      Multiple (-(terms.places : ℤ)) ((drawnFrom env terms record).getD 0) := by
  cases hdrawn : drawnFrom env terms record with
  | none => exact ⟨le_rfl, Multiple.zero _⟩
  | some drawn => exact drawnFrom_sound env hrates terms record drawn hdrawn

-- What a record is given lies between nothing and what it draws.
structure GivenWithin (record : UsageRecord) (given : ℚ × Assignment) : Prop where
  overage_nonneg : 0 ≤ given.1
  overage_le : given.1 ≤ (drawnFrom env terms record).getD 0
  stored_eq : terms.pledge.kind = .quantity → decimalQuantity given.2.overageQuantity = given.1
  stored_le : given.2.overageQuantity ≤ record.quantity

theorem DrawsExactly.within (state : Drawn) (record : UsageRecord) (h : DrawsExactly env terms state record)
    (hd : 0 ≤ (drawnFrom env terms record).getD 0) :
    GivenWithin env terms record (drawNext env terms state record).2 where
  overage_nonneg := by
    rw [h.overage_eq]
    exact sub_nonneg.mpr (pastCapacity_mono _ _ _ (by linarith))
  overage_le := by
    rw [h.overage_eq]
    exact pastCapacity_lipschitz _ _ _ hd
  stored_eq := h.stored_eq
  stored_le := h.stored_le

include hrates

-- The overages telescope: what the records before them drew does not matter to their sum.
theorem replay_draws (records : List UsageRecord) (state : Drawn) (hs : Fits terms (terms.position state))
    (hbound : terms.position state + drawnTotal env terms records < 10 ^ (DEFAULT_DIGITS - terms.places : ℤ)) :
    (replay (drawNext env terms) state records).1 =
        terms.moved state (drawnTotal env terms records) (records.map (undrawnOf env terms)).sum ∧
      ((replay (drawNext env terms) state records).2.map fun given => given.1).sum =
        pastCapacity terms.fullCapacity (terms.position state + drawnTotal env terms records) -
          pastCapacity terms.fullCapacity (terms.position state) ∧
      List.Forall₂ (GivenWithin env terms) records (replay (drawNext env terms) state records).2 := by
  induction records generalizing state with
  | nil =>
      refine ⟨?_, ?_, List.Forall₂.nil⟩
      · exact (moved_nothing terms state).symm
      · simp [replay, drawnTotal]
  | cons record rest ih =>
      obtain ⟨hd, hdm⟩ := drawnPart_sound env terms hrates record
      have htotal : drawnTotal env terms (record :: rest) =
          (drawnFrom env terms record).getD 0 + drawnTotal env terms rest := by
        rw [drawnTotal, List.map_cons, List.sum_cons, drawnTotal]
      have hrest : 0 ≤ drawnTotal env terms rest := by
        refine List.sum_nonneg fun x hx => ?_
        obtain ⟨other, _, rfl⟩ := List.mem_map.mp hx
        exact (drawnPart_sound env terms hrates other).1
      rw [htotal] at hbound ⊢
      have hf : Fits terms (terms.position state + (drawnFrom env terms record).getD 0) :=
        ⟨add_nonneg hs.nonneg hd, hs.multiple.add _ _ _ hdm, by linarith⟩
      have hstep := drawNext_exact env hrates terms state record hs hf
      have hposition : terms.position (drawNext env terms state record).1 =
          terms.position state + (drawnFrom env terms record).getD 0 := by
        rw [hstep.state_eq, position_moved]
      obtain ⟨hstate, hsum, hwithin⟩ := ih (drawNext env terms state record).1 (hposition ▸ hf)
        (by rw [hposition]; linarith)
      refine ⟨?_, ?_, ?_⟩
      · rw [replay, hstate, hstep.state_eq, moved_moved, List.map_cons, List.sum_cons]
      · rw [replay, List.map_cons, List.sum_cons, hsum, hstep.overage_eq, hposition]
        rw [add_assoc]
        ring
      · exact List.Forall₂.cons (hstep.within env terms state record hd) hwithin

def overageSum (records : List UsageRecord) : ℚ := ((drawEach env terms records).2.map fun given => given.1).sum

def storedOverageSum (records : List UsageRecord) : ℚ :=
  ((drawEach env terms records).2.map fun given => decimalQuantity given.2.overageQuantity).sum

omit hrates

theorem overageSum_stored (records : List UsageRecord) (given : List (ℚ × Assignment))
    (h : List.Forall₂ (GivenWithin env terms) records given) (hk : terms.pledge.kind = .quantity) :
    (given.map fun part => decimalQuantity part.2.overageQuantity) = given.map fun part => part.1 := by
  induction h with
  | nil => rfl
  | cons hpart _ ih => rw [List.map_cons, List.map_cons, hpart.stored_eq hk, ih]

include hrates

-- While the totals fit the digits they are stored with, the overages come to what is past the capacity,
-- and neither they nor the totals depend on the order.
theorem overages_conserve (records : List UsageRecord)
    (hbound : drawnTotal env terms records < 10 ^ (DEFAULT_DIGITS - terms.places : ℤ)) :
    List.Forall₂ (GivenWithin env terms) records (drawEach env terms records).2 ∧
      overageSum env terms records = max 0 (drawnTotal env terms records - terms.fullCapacity) ∧
      (terms.pledge.kind = .quantity → storedOverageSum env terms records = overageSum env terms records) ∧
      ∀ order : List UsageRecord, order.Perm records →
        (drawEach env terms order).1 = (drawEach env terms records).1 ∧
          overageSum env terms order = overageSum env terms records := by
  have hzero : terms.position .zero = 0 := by
    unfold Terms.position
    cases terms.pledge <;> rfl
  have hfits : Fits terms (terms.position .zero) := by
    rw [hzero]
    exact ⟨le_rfl, Multiple.zero _, zpow_pos (by norm_num) _⟩
  have hfull : 0 ≤ terms.fullCapacity := fullCapacity_nonneg terms
  have hnothing : pastCapacity terms.fullCapacity 0 = 0 := max_eq_left (by linarith)
  have hrun : ∀ order : List UsageRecord, order.Perm records →
      (drawEach env terms order).1 =
          terms.moved .zero (drawnTotal env terms records) (records.map (undrawnOf env terms)).sum ∧
        overageSum env terms order = max 0 (drawnTotal env terms records - terms.fullCapacity) ∧
        List.Forall₂ (GivenWithin env terms) order (drawEach env terms order).2 := by
    intro order hperm
    have htotal : drawnTotal env terms order = drawnTotal env terms records := (hperm.map _).sum_eq
    obtain ⟨hstate, hsum, hwithin⟩ := replay_draws env hrates terms order .zero hfits
      (by rw [hzero, zero_add, htotal]; exact hbound)
    rw [htotal, (hperm.map (undrawnOf env terms)).sum_eq] at hstate
    rw [hzero, zero_add, htotal, hnothing, sub_zero] at hsum
    exact ⟨hstate, hsum, hwithin⟩
  obtain ⟨hstate, hsum, hwithin⟩ := hrun records (List.Perm.refl _)
  refine ⟨hwithin, hsum, fun hk => ?_, fun order hperm => ?_⟩
  · rw [storedOverageSum, overageSum_stored env terms records _ hwithin hk, overageSum]
  · obtain ⟨hother, hotherSum, _⟩ := hrun order hperm
    exact ⟨hother.trans hstate.symm, hotherSum.trans hsum.symm⟩

end Runs

section Sample

def tokens (quantity : ℕ) : UsageRecord := { tokenRecord with quantity := quantity }

theorem overages_conserve_tokens :
    drawnTotal openai tokenTerms [tokens 900000000000, tokens 300000000000] < 10 ^ (DEFAULT_DIGITS - tokenTerms.places : ℤ) ∧
      overageSum openai tokenTerms [tokens 900000000000, tokens 300000000000] = 200000 := by
  have hbound : drawnTotal openai tokenTerms [tokens 900000000000, tokens 300000000000] <
      10 ^ (DEFAULT_DIGITS - tokenTerms.places : ℤ) := by decide +kernel
  refine ⟨hbound, ?_⟩
  rw [(overages_conserve openai (fun _ _ _ h => nomatch h) tokenTerms _ hbound).2.1]
  decide +kernel

-- Ten thousand records of the most that a row holds in whole tokens.
def manyTokens : List UsageRecord := List.replicate 10000 (tokens (10 ^ 24 - 10 ^ 6))

-- They draw all but the last ten thousand of 10 ^ 22 tokens, and what they draw past the capacity is stored as it is.
theorem manyTokens_drawn :
    (drawEach openai tokenTerms manyTokens).1 = ⟨10 ^ 22 - 10 ^ 4, 0, 0⟩ ∧
      drawnTotal openai tokenTerms manyTokens = 10 ^ 22 - 10 ^ 4 ∧
      storedOverageSum openai tokenTerms manyTokens = 10 ^ 22 - 10 ^ 4 - 1000000 := by
  have hpart : drawnFrom openai tokenTerms (tokens (10 ^ 24 - 10 ^ 6)) = some (10 ^ 18 - 1) := by decide +kernel
  have hundrawn : undrawnOf openai tokenTerms (tokens (10 ^ 24 - 10 ^ 6)) = 0 := by decide +kernel
  have htotal : drawnTotal openai tokenTerms manyTokens = 10 ^ 22 - 10 ^ 4 := by
    rw [drawnTotal, manyTokens, List.map_replicate, hpart, List.sum_replicate, Option.getD_some]
    norm_num
  have hcapacity : tokenTerms.fullCapacity = 1000000 := by decide +kernel
  have hzero : tokenTerms.position .zero = 0 := rfl
  have hfits : Fits tokenTerms (tokenTerms.position .zero) :=
    ⟨le_rfl, Multiple.zero _, by rw [hzero]; exact zpow_pos (by norm_num) _⟩
  have hroom : (10 : ℚ) ^ (DEFAULT_DIGITS - tokenTerms.places : ℤ) = 10 ^ 22 := by decide +kernel
  obtain ⟨hstate, hsum, hwithin⟩ := replay_draws openai (fun _ _ _ h => nomatch h) tokenTerms manyTokens .zero hfits
    (by rw [hzero, htotal, hroom]; norm_num)
  refine ⟨hstate.trans ?_, htotal, ?_⟩
  · rw [htotal, manyTokens, List.map_replicate, hundrawn, List.sum_replicate]
    simp [Terms.moved, tokenTerms, Drawn.zero]
  · rw [storedOverageSum, drawEach, overageSum_stored openai tokenTerms manyTokens _ hwithin rfl]
    refine hsum.trans ?_
    rw [hzero, htotal, hcapacity, pastCapacity, pastCapacity]
    norm_num

-- A total of more than 28 digits loses the last of them, and the records of their overage.
theorem tiny_overage_lost :
    ¬∀ (env : DrawEnv) (terms : Terms) (records : List UsageRecord), terms.pledge.kind = .quantity →
      (∀ record ∈ records, record.quantity < 10 ^ 24 ∧ matchRank env record terms ≠ none) →
      storedOverageSum env terms records = max 0 (drawnTotal env terms records - terms.fullCapacity) := by
  intro h
  obtain ⟨hstate, htotal, hstored⟩ := manyTokens_drawn
  -- the first of the two draws passes 10 ^ 22, and the other is not seen any more
  have hlast : ((replay (drawNext openai tokenTerms) ⟨10 ^ 22 - 10 ^ 4, 0, 0⟩ [tokens (10 ^ 11), tokens 1]).2.map
      fun given => decimalQuantity given.2.overageQuantity).sum = 10 ^ 5 := by
    decide +kernel
  have hdrawn : ((drawnFrom openai tokenTerms (tokens (10 ^ 11))).getD 0) +
      (drawnFrom openai tokenTerms (tokens 1)).getD 0 = 10 ^ 5 + 1 / 10 ^ 6 := by
    decide +kernel
  have hcapacity : tokenTerms.fullCapacity = 1000000 := by decide +kernel
  have hsum := h openai tokenTerms (manyTokens ++ [tokens (10 ^ 11), tokens 1]) rfl ?_
  · have hsplit : storedOverageSum openai tokenTerms (manyTokens ++ [tokens (10 ^ 11), tokens 1]) =
        10 ^ 22 - 10 ^ 4 - 1000000 + 10 ^ 5 := by
      rw [drawEach] at hstate
      rw [storedOverageSum, drawEach] at hstored ⊢
      rw [replay_append, hstate, List.map_append, List.sum_append, hstored, hlast]
    have hall : drawnTotal openai tokenTerms (manyTokens ++ [tokens (10 ^ 11), tokens 1]) =
        10 ^ 22 - 10 ^ 4 + (10 ^ 5 + 1 / 10 ^ 6) := by
      rw [drawnTotal] at htotal ⊢
      rw [List.map_append, List.sum_append, htotal, ← hdrawn, List.map_cons, List.map_cons, List.map_nil, List.sum_cons,
        List.sum_cons, List.sum_nil, add_zero]
    rw [hsplit, hall, hcapacity] at hsum
    norm_num at hsum
  · intro record hrecord
    rcases List.mem_append.mp hrecord with hmany | hlast
    · rw [List.eq_of_mem_replicate hmany]
      decide +kernel
    · rcases List.mem_pair.mp hlast with rfl | rfl
      · decide +kernel
      · decide +kernel

end Sample

end AgenticOrg.Spend
