import AgenticOrg.Spend.Gpu.Split

namespace AgenticOrg.Spend.Gpu

open Tables

section Passes

-- Who takes part in a run's split.
def Tenant.inSplit (tenant : Tenant) : Bool :=
  tenant.written || (tenant.active && 0 < chargedTokens tenant.tokens)

def Tenant.allTokens (tenant : Tenant) : ℕ := (tenant.tokens.map (·.quantity)).sum

def Tenant.keptTokens (tenant : Tenant) : ℕ :=
  ownCostTokens tenant.tokens + if tenant.inSplit then 0 else chargedTokens tenant.tokens

def chargedWeight (tenant : Tenant) : ℕ × ℕ := (tenant.id, chargedTokens tenant.tokens)

def splitKey (tenant : Tenant) : WithBot ℕ × ℕ := (tenant.id, chargedTokens tenant.tokens)

-- Every row has the tokens its tenant is charged now.
def RowsCurrent (rows : List Tenant) : Prop :=
  ∀ tenant ∈ rows, ∀ row, tenant.allocation = some row → row.tokens = chargedTokens tenant.tokens

theorem charged_add_ownCost (tokens : List TokenRecord) :
    chargedTokens tokens + ownCostTokens tokens = (tokens.map (·.quantity)).sum := by
  induction tokens with
  | nil => rfl
  | cons record rest ih =>
      unfold chargedTokens ownCostTokens at ih ⊢
      rw [List.map_cons, List.sum_cons, ← ih]
      by_cases hp : record.pricedAboveZero = true
      · simp [hp]
        omega
      · simp [hp]
        omega

theorem tokens_of_inSplit (tenant : Tenant) :
    (if tenant.inSplit then chargedTokens tenant.tokens else 0) + tenant.keptTokens = tenant.allTokens := by
  have hsum := charged_add_ownCost tenant.tokens
  unfold Tenant.keptTokens Tenant.allTokens
  split <;> omega

-- The pass after a tenant, as long as what is kept has no more digits than sums keep.
def Pass.after (pass : Pass) (kept : ℕ) (tenant : Tenant) : Pass :=
  { charged := pass.charged ++ if tenant.inSplit then [chargedWeight tenant] else []
    written := pass.written ++ if tenant.written then [(tenant.id, tenant.writtenHours)] else []
    kept := (kept + tenant.keptTokens : ℕ)
    skipped := pass.skipped + ownCostCalls tenant.tokens }

theorem plus_exact (x y : ℕ) (h : x + y < TOKEN_LIMIT) :
    Decimals.plus CONTEXT_DIGITS (x : ℚ) (y : ℚ) = ((x + y : ℕ) : ℚ) := by
  rw [Decimals.plus, ← Nat.cast_add]
  refine Decimals.rounded_of_multiple CONTEXT_DIGITS 0 _ ⟨(x + y : ℕ), by simp⟩ ?_
  rw [Nat.abs_cast, CONTEXT_DIGITS, add_zero, zpow_natCast]
  exact_mod_cast h

theorem total_natCast (xs : List ℕ) (h : xs.sum < TOKEN_LIMIT) :
    Decimals.total CONTEXT_DIGITS (xs.map ((↑) : ℕ → ℚ)) = (xs.sum : ℕ) := by
  have hsum : (xs.map ((↑) : ℕ → ℚ)).sum = (xs.sum : ℕ) := (Nat.cast_list_sum xs).symm
  have habs : (xs.map ((↑) : ℕ → ℚ)).map abs = xs.map ((↑) : ℕ → ℚ) := by
    rw [List.map_map]
    exact List.map_congr_left fun x _ => Nat.abs_cast x
  rw [← hsum]
  refine Decimals.Exact.total_eq CONTEXT_DIGITS 0 _ ⟨?_, ?_⟩
  · intro x hx
    obtain ⟨n, _, rfl⟩ := List.mem_map.mp hx
    exact ⟨n, by simp⟩
  · rw [habs, hsum, CONTEXT_DIGITS, add_zero, zpow_natCast]
    exact_mod_cast h

theorem Pass.add_eq (pass : Pass) (tenant : Tenant) (kept : ℕ) (hk : pass.kept = kept)
    (hfits : kept + tenant.allTokens < TOKEN_LIMIT)
    (hrow : ∀ row, tenant.allocation = some row → row.tokens = chargedTokens tenant.tokens) :
    pass.add tenant = pass.after kept tenant := by
  have hsum := charged_add_ownCost tenant.tokens
  have hown : Decimals.plus CONTEXT_DIGITS pass.kept (ownCostTokens tenant.tokens) =
      ((kept + ownCostTokens tenant.tokens : ℕ) : ℚ) := by
    rw [hk]
    refine plus_exact _ _ ?_
    unfold Tenant.allTokens at hfits
    omega
  have hboth : Decimals.plus CONTEXT_DIGITS ((kept + ownCostTokens tenant.tokens : ℕ) : ℚ)
      (chargedTokens tenant.tokens) =
      ((kept + (ownCostTokens tenant.tokens + chargedTokens tenant.tokens) : ℕ) : ℚ) := by
    rw [← add_assoc]
    refine plus_exact _ _ ?_
    unfold Tenant.allTokens at hfits
    omega
  push_cast at hboth
  unfold Pass.add Pass.after Tenant.keptTokens Tenant.inSplit Tenant.written Tenant.writtenHours chargedWeight
    foundTokens
  rcases hal : tenant.allocation with _ | row
  · by_cases ha : tenant.active = true
    · by_cases hc : 0 < chargedTokens tenant.tokens
      · simp [ha, hc, hown]
      · simp [ha, hown, Nat.eq_zero_of_not_pos hc]
    · simp [ha, hown, hboth]
  · have htokens := hrow row hal
    by_cases hw : row.status = .written
    · simp [hw, hown, htokens]
    · by_cases ha : tenant.active = true
      · by_cases hc : 0 < chargedTokens tenant.tokens
        · simp [hw, ha, hc, hown]
        · simp [hw, ha, hown, Nat.eq_zero_of_not_pos hc]
      · simp [hw, ha, hown, hboth]

-- What the pass makes of the tenants.
def Pass.over (pass : Pass) (kept : ℕ) (rows : List Tenant) : Pass :=
  { charged := pass.charged ++ (rows.filter (·.inSplit)).map chargedWeight
    written := pass.written ++ (rows.filter (·.written)).map fun tenant => (tenant.id, tenant.writtenHours)
    kept := (kept + (rows.map (·.keptTokens)).sum : ℕ)
    skipped := pass.skipped + (rows.map fun tenant => ownCostCalls tenant.tokens).sum }

theorem Pass.foldl_add (rows : List Tenant) (pass : Pass) (kept : ℕ) (hk : pass.kept = kept)
    (hfits : kept + (rows.map (·.allTokens)).sum < TOKEN_LIMIT) (hrows : RowsCurrent rows) :
    rows.foldl Pass.add pass = pass.over kept rows := by
  induction rows generalizing pass kept with
  | nil => simp [Pass.over, ← hk]
  | cons tenant rest ih =>
      rw [List.map_cons, List.sum_cons] at hfits
      have hkept : tenant.keptTokens ≤ tenant.allTokens := by
        have htokens := tokens_of_inSplit tenant
        omega
      rw [List.foldl_cons, Pass.add_eq pass tenant kept hk (by omega) (hrows tenant List.mem_cons_self),
        ih (pass.after kept tenant) (kept + tenant.keptTokens) rfl (by omega)
          fun other ho => hrows other (List.mem_cons_of_mem _ ho)]
      unfold Pass.over Pass.after
      by_cases hs : tenant.inSplit = true
      · by_cases hw : tenant.written = true
        · simp [hs, hw, add_assoc]
        · simp [hs, hw, add_assoc]
      · have hw : ¬tenant.written = true := fun hw => hs (by simp [Tenant.inSplit, hw])
        simp [hs, hw, add_assoc]

-- The weights of the split a run makes.
def splitWeights (rows : List Tenant) : List (WithBot ℕ × ℕ) :=
  (((rows.filter (·.inSplit)).map chargedWeight).insertionSort fun a b => a.1 ≤ b.1).map
      (fun charged => ((charged.1 : WithBot ℕ), charged.2)) ++
    [(PLATFORM_KEY, (rows.map (·.keptTokens)).sum)]

theorem splitWeights_perm (rows : List Tenant) :
    (splitWeights rows).Perm ((rows.filter (·.inSplit)).map splitKey ++
      [(PLATFORM_KEY, (rows.map (·.keptTokens)).sum)]) := by
  refine List.Perm.append_right _ ?_
  refine ((List.perm_insertionSort _ _).map _).trans ?_
  rw [List.map_map]
  exact List.Perm.refl _

theorem mem_splitWeights (rows : List Tenant) (tenant : Tenant) (h : tenant ∈ rows)
    (hs : tenant.inSplit = true) : splitKey tenant ∈ splitWeights rows := by
  rw [(splitWeights_perm rows).mem_iff, List.mem_append]
  exact .inl (List.mem_map_of_mem (List.mem_filter.mpr ⟨h, hs⟩))

theorem sum_inSplit (rows : List Tenant) :
    (((rows.filter (·.inSplit)).map splitKey).map (·.2)).sum + (rows.map (·.keptTokens)).sum =
      (rows.map (·.allTokens)).sum := by
  induction rows with
  | nil => rfl
  | cons tenant rest ih =>
      have htokens := tokens_of_inSplit tenant
      rw [List.map_cons, List.sum_cons, List.map_cons, List.sum_cons, ← ih, ← htokens]
      by_cases hs : tenant.inSplit = true
      · simp [hs, splitKey]
        omega
      · simp [hs]
        omega

theorem weightTotal_splitWeights (rows : List Tenant) :
    weightTotal (splitWeights rows) = (rows.map (·.allTokens)).sum := by
  have hsum := ((splitWeights_perm rows).map (·.2)).sum_eq
  rw [weightTotal, hsum, List.map_append, List.sum_append, ← sum_inSplit rows]
  simp

theorem keys_splitWeights (rows : List Tenant) (hd : (rows.map (·.id)).Nodup) :
    ((splitWeights rows).map (·.1)).Nodup := by
  rw [((splitWeights_perm rows).map (·.1)).nodup_iff, List.map_append, List.nodup_append, List.map_map]
  have hids : ((rows.filter (·.inSplit)).map (·.id)).Nodup := (List.filter_sublist.map _).nodup hd
  refine ⟨?_, by simp, ?_⟩
  · have hcoe : (((rows.filter (·.inSplit)).map (·.id)).map ((↑) : ℕ → WithBot ℕ)).Nodup :=
      hids.map WithBot.coe_injective
    rwa [List.map_map] at hcoe
  · rintro a ha b hb rfl
    obtain ⟨tenant, _, he⟩ := List.mem_map.mp ha
    have hbot : a = PLATFORM_KEY := by simpa using hb
    rw [hbot] at he
    exact absurd he (WithBot.coe_ne_bot)

end Passes

section FirstPass

variable (tenants : Table Tenant) (hfits : (tenants.rows.map (·.allTokens)).sum < TOKEN_LIMIT)
  (hrows : RowsCurrent tenants.rows)

include hfits hrows

theorem firstPass_eq : firstPass tenants = Pass.empty.over 0 tenants.rows :=
  Pass.foldl_add tenants.rows Pass.empty 0 (by simp [Pass.empty]) (by simpa using hfits) hrows

theorem firstPass_weights : (firstPass tenants).weights = weightsOf (splitWeights tenants.rows) := by
  rw [firstPass_eq tenants hfits hrows, Pass.weights, weightsOf, splitWeights, List.map_append, List.map_map]
  simp [Pass.over, Pass.empty, Function.comp_def]

theorem firstPass_total : (firstPass tenants).total = ((tenants.rows.map (·.allTokens)).sum : ℕ) := by
  have hsum := sum_inSplit tenants.rows
  have hcharged : (firstPass tenants).charged.map (fun charged => (charged.2 : ℚ)) =
      (((tenants.rows.filter (·.inSplit)).map splitKey).map (·.2)).map ((↑) : ℕ → ℚ) := by
    rw [firstPass_eq tenants hfits hrows, List.map_map, List.map_map]
    simp [Pass.over, Pass.empty, Function.comp_def, splitKey, chargedWeight]
  have hkept : (firstPass tenants).kept = ((tenants.rows.map (·.keptTokens)).sum : ℕ) := by
    rw [firstPass_eq tenants hfits hrows]
    simp [Pass.over]
  rw [Pass.total, hcharged, total_natCast _ (by omega), hkept, plus_exact _ _ (by omega), hsum]

theorem firstPass_shares (hour : PoolHour) (hpos : 0 < (tenants.rows.map (·.allTokens)).sum) :
    Splittable hour.nodeHours (splitWeights tenants.rows) ∧
      (firstPass tenants).shares hour = (splitWeights tenants.rows).map fun weight =>
        (weight.1, shareOf hour.nodeHours (splitWeights tenants.rows) weight) := by
  have hsplit : Splittable hour.nodeHours (splitWeights tenants.rows) :=
    { positive := hour.inRange.1
      bounded := hour.inRange.2
      keys := keys_splitWeights tenants.rows tenants.distinct
      some := by rwa [weightTotal_splitWeights]
      fits := by rwa [weightTotal_splitWeights] }
  refine ⟨hsplit, ?_⟩
  have htotal : 0 < (firstPass tenants).total := by
    rw [firstPass_total tenants hfits hrows]
    exact_mod_cast hpos
  rw [Pass.shares, if_pos htotal, firstPass_weights tenants hfits hrows, largestRemainder_eq _ _ hsplit]

theorem firstPass_written (tenant : Tenant) (h : tenant ∈ tenants.rows) :
    (firstPass tenants).written.lookup tenant.id =
      if tenant.written then some tenant.writtenHours else none := by
  have hwritten : (firstPass tenants).written =
      (tenants.rows.filter (·.written)).map fun tenant => (tenant.id, tenant.writtenHours) := by
    rw [firstPass_eq tenants hfits hrows]
    simp [Pass.over, Pass.empty]
  have hids : (((tenants.rows.filter (·.written)).map fun tenant => (tenant.id, tenant.writtenHours)).map
      (·.1)).Nodup := by
    rw [List.map_map]
    exact (List.filter_sublist.map _).nodup tenants.distinct
  rw [hwritten]
  split_ifs with hw
  · exact Lists.lookup_of_mem _ _ _ hids (List.mem_map_of_mem (List.mem_filter.mpr ⟨h, hw⟩))
  · refine Lists.lookup_of_not_mem _ _ ?_
    intro hm
    rw [List.map_map] at hm
    obtain ⟨other, ho, he⟩ := List.mem_map.mp hm
    rw [List.mem_filter] at ho
    have heq : other = tenant := tenants.eq_of_key other tenant ho.1 h he
    exact hw (heq ▸ ho.2)

end FirstPass

end AgenticOrg.Spend.Gpu
