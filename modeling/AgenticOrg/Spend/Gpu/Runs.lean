import AgenticOrg.Spend.Gpu.Passes

namespace AgenticOrg.Spend.Gpu

open Tables

section Rows

-- A tenant has records only once its row is written, and then for the row's hours.
structure Recorded (tenant : Tenant) : Prop where
  unwritten : tenant.written = false → tenant.records = []
  written : tenant.written = true → tenant.writtenHours = recordHours tenant
  nonneg : 0 ≤ tenant.writtenHours

theorem writtenHours_of_unwritten (tenant : Tenant) (h : tenant.written = false) : tenant.writtenHours = 0 := by
  unfold Tenant.written at h
  unfold Tenant.writtenHours
  rcases hal : tenant.allocation with _ | row
  · rfl
  · rw [hal, Option.any_some, decide_eq_false_iff_not] at h
    exact if_neg h

theorem freezeTenant_written (tenant : Tenant) (h : tenant.written = true) : freezeTenant tenant = tenant := by
  obtain ⟨id, active, tokens, allocation, records⟩ := tenant
  rcases allocation with _ | row
  · cases h
  · have hstatus : row.status = .written := by simpa [Tenant.written] using h
    simp [freezeTenant, freezeRow, hstatus]

theorem freezeTenant_hours (tenant : Tenant) : (freezeTenant tenant).writtenHours = tenant.writtenHours := by
  by_cases hw : tenant.written = true
  · rw [freezeTenant_written tenant hw]
  · rw [writtenHours_of_unwritten tenant (by simpa using hw)]
    unfold freezeTenant freezeRow Tenant.writtenHours
    unfold Tenant.written at hw
    rcases hal : tenant.allocation with _ | row
    · dsimp only
      split
      · rename_i hrow
        split at hrow <;> cases hrow
        rfl
      · rfl
    · have hstatus : ¬row.status = .written := by simpa [hal] using hw
      by_cases ha : tenant.active = true
      · by_cases hc : chargedTokens tenant.tokens = 0
        · simp [hstatus, ha, hc, settle]
        · simp [hstatus, ha, hc]
      · simp [hstatus, ha, settle]

theorem freezeTenant_current (tenant : Tenant)
    (hrow : ∀ row, tenant.allocation = some row → row.tokens = chargedTokens tenant.tokens) (row : Allocation)
    (h : (freezeTenant tenant).allocation = some row) : row.tokens = chargedTokens tenant.tokens := by
  unfold freezeTenant freezeRow at h
  dsimp only at h
  rcases hal : tenant.allocation with _ | old
  · rw [hal] at h
    dsimp only at h
    split at h
    · cases h
      rfl
    · cases h
  · have htokens := hrow old hal
    rw [hal] at h
    dsimp only at h
    split_ifs at h <;> cases h
    · exact htokens
    · exact htokens
    · rfl
    · rfl

theorem freezeTenant_recorded (tenant : Tenant) (h : Recorded tenant) : Recorded (freezeTenant tenant) := by
  by_cases hw : tenant.written = true
  · rwa [freezeTenant_written tenant hw]
  · have hfalse : tenant.written = false := by simpa using hw
    have hempty : (freezeTenant tenant).records = [] := h.unwritten hfalse
    have hhours := freezeTenant_hours tenant
    rw [writtenHours_of_unwritten tenant hfalse] at hhours
    refine ⟨fun _ => hempty, fun _ => ?_, hhours.ge⟩
    rw [hhours, recordHours, hempty]
    rfl

-- A tenant the split gives a share has a frozen row for it.
theorem freezeTenant_frozen (tenant : Tenant) (hw : tenant.written = false) (hs : tenant.inSplit = true) :
    ∃ row, (freezeTenant tenant).allocation = some row ∧ row.tokens = chargedTokens tenant.tokens := by
  unfold Tenant.inSplit at hs
  rw [hw, Bool.false_or, Bool.and_eq_true, decide_eq_true_eq] at hs
  unfold Tenant.written at hw
  unfold freezeTenant freezeRow
  rcases hal : tenant.allocation with _ | row
  · exact ⟨frozenRow (chargedTokens tenant.tokens), by simp [hs.1, hs.2], rfl⟩
  · have hstatus : ¬row.status = .written := by simpa [hal] using hw
    have hc : ¬chargedTokens tenant.tokens = 0 := by omega
    exact ⟨{ row with tokens := chargedTokens tenant.tokens }, by simp [hstatus, hs.1, hc], rfl⟩

-- A share is written as a whole: its row, and records that come to it.
theorem writeTenant_spec (price : ℤ → Priced) (tenant : Tenant) (share : ℤ) (row : Allocation)
    (hrow : tenant.allocation = some row) (hempty : tenant.records = []) (hnonneg : 0 ≤ share)
    (hbounded : share ≤ MAX_NODE_HOURS) (hcharged : 0 < chargedTokens tenant.tokens)
    (hfits : chargedTokens tenant.tokens < TOKEN_LIMIT) :
    (writeTenant price tenant share).writtenHours = share ∧
      Recorded (writeTenant price tenant share) ∧
      ∃ row', (writeTenant price tenant share).allocation = some row' ∧ row'.tokens = row.tokens := by
  have hhours : (writeTenant price tenant share).writtenHours = share ∧
      (writeTenant price tenant share).written = true ∧
      ∃ row', (writeTenant price tenant share).allocation = some row' ∧ row'.tokens = row.tokens := by
    unfold writeTenant Tenant.writtenHours Tenant.written
    split_ifs with hpos
    · refine ⟨by simp [hrow, writtenRow], by simp [hrow, writtenRow],
        writtenRow share (shareEvents price tenant.tokens share).1 (shareEvents price tenant.tokens share).2 row,
        ?_, rfl⟩
      rw [hrow]
      rfl
    · have hzero : share = 0 := by omega
      exact ⟨by simp [hrow, settle, hzero], by simp [hrow, settle], settle row, by simp [hrow], rfl⟩
  have hrecords : recordHours (writeTenant price tenant share) = share := by
    unfold writeTenant recordHours shareEvents
    split_ifs with hpos
    · have hsplit : Splittable share (chargedCalls tenant.tokens) :=
        { positive := hpos
          bounded := hbounded
          keys := keys_chargedCalls tenant.tokens
          some := by rwa [weightTotal_chargedCalls]
          fits := by rwa [weightTotal_chargedCalls] }
      have hnodup := nodup_splitShare share (chargedCalls tenant.tokens) (price share) hsplit
      have hsum := sum_splitShare share (chargedCalls tenant.tokens) (price share) hsplit
      have hfresh := writeEvents_fresh [] _ hnodup
      rw [List.nil_append] at hfresh
      dsimp only
      rw [hempty]
      exact (congrArg (fun records => (records.map (·.quantity)).sum) hfresh).trans hsum
    · dsimp only
      rw [hempty, List.map_nil, List.sum_nil]
      omega
  obtain ⟨hwh, hw, hrow'⟩ := hhours
  refine ⟨hwh, ⟨fun hf => absurd hw (by rw [hf]; exact Bool.false_ne_true), fun _ => ?_, ?_⟩, hrow'⟩
  · rw [hwh, hrecords]
  · rwa [hwh]

end Rows

section Runs

-- A split in which no tenant's written hours exceed its share, and which gives a share to every tenant that may
-- still be written.
structure Dominates (weights : List (WithBot ℕ × ℕ)) (nodeHours : ℤ) (rows : List Tenant) : Prop where
  splittable : Splittable nodeHours weights
  total : weightTotal weights = (rows.map (·.allTokens)).sum
  open_ : ∀ tenant ∈ rows, tenant.active = true → 0 < chargedTokens tenant.tokens → splitKey tenant ∈ weights
  carried : ∀ tenant ∈ rows, tenant.writtenHours ≠ 0 →
    splitKey tenant ∈ weights ∧ tenant.writtenHours ≤ shareOf nodeHours weights (splitKey tenant)

theorem shareOf_le (nodeHours : ℤ) (weights : List (WithBot ℕ × ℕ)) (h : Splittable nodeHours weights)
    (weight : WithBot ℕ × ℕ) (hw : weight ∈ weights) : shareOf nodeHours weights weight ≤ nodeHours := by
  have hle := Lists.sum_le_of_subset (shareOf nodeHours weights) [weight] weights (by simp) (by simpa using hw)
    (shareOf_nonneg nodeHours weights h)
  rwa [List.map_singleton, List.sum_singleton, sum_shareOf nodeHours weights h] at hle

theorem Dominates.within (weights : List (WithBot ℕ × ℕ)) (nodeHours : ℤ) (rows : List Tenant)
    (h : Dominates weights nodeHours rows) (hd : (rows.map (·.id)).Nodup) :
    (rows.map (·.writtenHours)).sum ≤ nodeHours := by
  have hfilter := Lists.sum_filter Tenant.writtenHours (fun tenant => tenant.writtenHours ≠ 0) rows fun tenant _ hz => by
    simpa using hz
  have hkeys : ((rows.filter fun tenant => tenant.writtenHours ≠ 0).map splitKey).Nodup := by
    refine List.Nodup.of_map (·.1) ?_
    rw [List.map_map]
    have hids : ((rows.filter fun tenant => tenant.writtenHours ≠ 0).map (·.id)).Nodup :=
      (List.filter_sublist.map _).nodup hd
    have hcoe := hids.map (f := ((↑) : ℕ → WithBot ℕ)) WithBot.coe_injective
    rwa [List.map_map] at hcoe
  have hshares : ((rows.filter fun tenant => tenant.writtenHours ≠ 0).map (·.writtenHours)).sum ≤
      (((rows.filter fun tenant => tenant.writtenHours ≠ 0).map splitKey).map (shareOf nodeHours weights)).sum := by
    rw [List.map_map]
    refine List.sum_le_sum fun tenant ht => ?_
    rw [List.mem_filter, decide_eq_true_eq] at ht
    exact (h.carried tenant ht.1 ht.2).2
  rw [← hfilter]
  refine hshares.trans (le_of_le_of_eq ?_ (sum_shareOf nodeHours weights h.splittable))
  refine Lists.sum_le_of_subset _ _ _ hkeys ?_ (shareOf_nonneg nodeHours weights h.splittable)
  intro key hk
  obtain ⟨tenant, ht, rfl⟩ := List.mem_map.mp hk
  rw [List.mem_filter, decide_eq_true_eq] at ht
  exact (h.carried tenant ht.1 ht.2).1

variable (stale : Bool) (price : ℕ → ℤ → Priced) (outcome : ℕ → Outcome) (tenants : Table Tenant)
  (hour : PoolHour)

-- A tenant after a run.
def ranTenant (tenant : Tenant) : Tenant :=
  takeShare price outcome (firstPass tenants) ((firstPass tenants).shares hour) (freezeTenant tenant)

-- A run writes the tenant's share, or leaves its hours as they were.
inductive Ran (tenant : Tenant) : Tenant → Prop where
  | kept (after : Tenant) (hours : after.writtenHours = tenant.writtenHours)
      (skipped : tenant.inSplit = true → tenant.written = false → outcome tenant.id ≠ .written) : Ran tenant after
  | took (after : Tenant) (share : tenant.inSplit = true) (unwritten : tenant.written = false)
      (out : outcome tenant.id = .written)
      (hours : after.writtenHours = shareOf hour.nodeHours (splitWeights tenants.rows) (splitKey tenant)) :
      Ran tenant after

theorem splitWeights_absent (tenant : Tenant) (h : tenant ∈ tenants.rows) (hs : ¬tenant.inSplit = true) :
    (tenant.id : WithBot ℕ) ∉ (splitWeights tenants.rows).map (·.1) := by
  intro hm
  rw [((splitWeights_perm tenants.rows).map (·.1)).mem_iff, List.map_append, List.mem_append, List.map_map] at hm
  rcases hm with hm | hm
  · obtain ⟨other, ho, he⟩ := List.mem_map.mp hm
    rw [List.mem_filter] at ho
    have heq : other = tenant := tenants.eq_of_key other tenant ho.1 h (WithBot.coe_injective he)
    exact hs (heq ▸ ho.2)
  · simp [PLATFORM_KEY] at hm

theorem charged_le (tenant : Tenant) (h : tenant ∈ tenants.rows) :
    chargedTokens tenant.tokens ≤ (tenants.rows.map (·.allTokens)).sum := by
  have hle : tenant.allTokens ≤ (tenants.rows.map (·.allTokens)).sum := List.le_sum_of_mem (List.mem_map_of_mem h)
  have hsum : chargedTokens tenant.tokens + ownCostTokens tenant.tokens = tenant.allTokens :=
    charged_add_ownCost tenant.tokens
  omega

section Current

variable (hfits : (tenants.rows.map (·.allTokens)).sum < TOKEN_LIMIT) (hrows : RowsCurrent tenants.rows)

include hfits hrows

theorem shares_lookup (tenant : Tenant) (h : tenant ∈ tenants.rows)
    (hpos : 0 < (tenants.rows.map (·.allTokens)).sum) :
    ((firstPass tenants).shares hour).lookup (tenant.id : WithBot ℕ) =
      if tenant.inSplit then some (shareOf hour.nodeHours (splitWeights tenants.rows) (splitKey tenant))
      else none := by
  obtain ⟨hsplit, hshares⟩ := firstPass_shares tenants hfits hrows hour hpos
  have hkeys : (((splitWeights tenants.rows).map fun weight =>
      (weight.1, shareOf hour.nodeHours (splitWeights tenants.rows) weight)).map (·.1)) =
      (splitWeights tenants.rows).map (·.1) := by
    rw [List.map_map]
    rfl
  rw [hshares]
  split_ifs with hs
  · refine Lists.lookup_of_mem _ _ _ (hkeys ▸ hsplit.keys) ?_
    exact List.mem_map_of_mem (mem_splitWeights tenants.rows tenant h hs)
  · exact Lists.lookup_of_not_mem _ _ (hkeys ▸ splitWeights_absent tenants tenant h hs)

theorem shares_idle (hzero : (tenants.rows.map (·.allTokens)).sum = 0) : (firstPass tenants).shares hour = [] := by
  rw [Pass.shares, firstPass_total tenants hfits hrows, hzero]
  exact if_neg (lt_irrefl _)

-- What a run does to a tenant.
theorem ranTenant_spec (tenant : Tenant) (h : tenant ∈ tenants.rows) (hrec : Recorded tenant) :
    Ran outcome tenants hour tenant (ranTenant price outcome tenants hour tenant) ∧
      Recorded (ranTenant price outcome tenants hour tenant) ∧
      ∀ row, (ranTenant price outcome tenants hour tenant).allocation = some row →
        row.tokens = chargedTokens tenant.tokens := by
  have hfrozen : ranTenant price outcome tenants hour tenant = freezeTenant tenant →
      (tenant.inSplit = true → tenant.written = false → outcome tenant.id ≠ .written) →
      Ran outcome tenants hour tenant (ranTenant price outcome tenants hour tenant) ∧
      Recorded (ranTenant price outcome tenants hour tenant) ∧
      ∀ row, (ranTenant price outcome tenants hour tenant).allocation = some row →
        row.tokens = chargedTokens tenant.tokens := by
    intro he hskip
    rw [he]
    exact ⟨.kept _ (freezeTenant_hours tenant) hskip, freezeTenant_recorded tenant hrec,
      freezeTenant_current tenant (hrows tenant h)⟩
  have hwritten := firstPass_written tenants hfits hrows tenant h
  have hcharged := charged_le tenants tenant h
  by_cases hzero : (tenants.rows.map (·.allTokens)).sum = 0
  · refine hfrozen ?_ ?_
    · rw [ranTenant, shares_idle tenants hour hfits hrows hzero]
      rfl
    · intro hs hw
      simp only [Tenant.inSplit, hw, Bool.false_or, Bool.and_eq_true, decide_eq_true_eq] at hs
      omega
  · have hlookup := shares_lookup tenants hour hfits hrows tenant h (by omega)
    by_cases hs : tenant.inSplit = true ∧ tenant.written = false ∧ outcome tenant.id = .written
    · obtain ⟨hs, hw, ho⟩ := hs
      obtain ⟨hsplit, _⟩ := firstPass_shares tenants hfits hrows hour (by omega)
      have hmem := mem_splitWeights tenants.rows tenant h hs
      obtain ⟨row, hrow, htokens⟩ := freezeTenant_frozen tenant hw hs
      have hpos : 0 < chargedTokens tenant.tokens := by
        simp only [Tenant.inSplit, hw, Bool.false_or, Bool.and_eq_true, decide_eq_true_eq] at hs
        exact hs.2
      rw [if_pos hs] at hlookup
      rw [if_neg (by rw [hw]; exact Bool.false_ne_true)] at hwritten
      have hran : ranTenant price outcome tenants hour tenant = writeTenant (price tenant.id) (freezeTenant tenant)
          (shareOf hour.nodeHours (splitWeights tenants.rows) (splitKey tenant)) := by
        unfold ranTenant takeShare
        rw [show (freezeTenant tenant).id = tenant.id from rfl, hlookup, hwritten, ho]
      obtain ⟨hhours, hrecorded, row', hrow', htokens'⟩ := writeTenant_spec (price tenant.id) (freezeTenant tenant)
        (shareOf hour.nodeHours (splitWeights tenants.rows) (splitKey tenant)) row hrow (hrec.unwritten hw)
        (shareOf_nonneg _ _ hsplit _ hmem) ((shareOf_le _ _ hsplit _ hmem).trans hour.inRange.2) hpos
        (lt_of_le_of_lt hcharged hfits)
      rw [hran]
      refine ⟨.took _ hs hw ho hhours, hrecorded, ?_⟩
      intro other he
      rw [hrow'] at he
      cases he
      rw [htokens', htokens]
    · refine hfrozen ?_ fun hsplit hw ho => hs ⟨hsplit, hw, ho⟩
      unfold ranTenant takeShare
      rw [show (freezeTenant tenant).id = tenant.id from rfl, hlookup, hwritten]
      split
      · rename_i hshare hnone hout
        split_ifs at hshare hnone with hin hw
        exact absurd ⟨hin, by simpa using hw, hout⟩ hs
      · rfl

end Current

theorem ranTenant_id (tenant : Tenant) : (ranTenant price outcome tenants hour tenant).id = tenant.id :=
  takeShare_key price outcome (firstPass tenants) _ (freezeTenant tenant)

theorem ranTenant_keeps (tenant : Tenant) :
    (ranTenant price outcome tenants hour tenant).active = tenant.active ∧
      (ranTenant price outcome tenants hour tenant).tokens = tenant.tokens := by
  unfold ranTenant takeShare
  split
  · unfold writeTenant
    split_ifs <;> exact ⟨rfl, rfl⟩
  · exact ⟨rfl, rfl⟩

theorem ranTenant_splitKey (tenant : Tenant) :
    splitKey (ranTenant price outcome tenants hour tenant) = splitKey tenant := by
  rw [splitKey, splitKey, ranTenant_id, (ranTenant_keeps price outcome tenants hour tenant).2]

theorem ranTenant_allTokens :
    ((tenants.rows.map (ranTenant price outcome tenants hour)).map (·.allTokens)) =
      tenants.rows.map (·.allTokens) := by
  rw [List.map_map]
  refine List.map_congr_left fun tenant _ => ?_
  rw [Function.comp_apply, Tenant.allTokens, (ranTenant_keeps price outcome tenants hour tenant).2]
  rfl

section Tallies

def contribution (pass : Pass) (share : WithBot ℕ × ℤ) : ℤ :=
  match share.1 with
  | none => 0
  | some id => (pass.written.lookup id).getD share.2

theorem Tally.add_clean (pass : Pass) (tally : Tally) (share : WithBot ℕ × ℤ)
    (hf : (tally.add pass outcome share).failed = 0) (hp : (tally.add pass outcome share).paused = 0) :
    tally.failed = 0 ∧ tally.paused = 0 ∧
      (∀ id : ℕ, share.1 = id → pass.written.lookup id = none → outcome id = .written) ∧
      (tally.add pass outcome share).carried = tally.carried + contribution pass share := by
  obtain ⟨key, hours⟩ := share
  unfold Tally.add contribution at *
  rcases key with _ | id
  · refine ⟨hf, hp, fun id he => ?_, (add_zero _).symm⟩
    exact absurd he.symm WithBot.coe_ne_bot
  · dsimp only at hf hp ⊢
    rcases hl : pass.written.lookup id with _ | old
    · rw [hl] at hf hp
      dsimp only at hf hp ⊢
      rcases ho : outcome id with _ | _ | _
      · rw [ho] at hf hp
        refine ⟨hf, hp, fun other he _ => ?_, rfl⟩
        have heq : id = other := WithBot.coe_injective he
        rwa [← heq]
      · rw [ho] at hf
        exact absurd hf (Nat.succ_ne_zero _)
      · rw [ho] at hp
        exact absurd hp (Nat.succ_ne_zero _)
    · rw [hl] at hf hp
      refine ⟨hf, hp, fun other he hnone => ?_, rfl⟩
      have heq : id = other := WithBot.coe_injective he
      rw [← heq, hl] at hnone
      cases hnone

-- Nothing failed or paused: every share that was not there before is written, and all of them are carried.
theorem tally_clean (pass : Pass) (shares : List (WithBot ℕ × ℤ))
    (hf : (shares.foldl (Tally.add pass outcome) ⟨0, 0, 0⟩).failed = 0)
    (hp : (shares.foldl (Tally.add pass outcome) ⟨0, 0, 0⟩).paused = 0) :
    (∀ share ∈ shares, ∀ id : ℕ, share.1 = id → pass.written.lookup id = none → outcome id = .written) ∧
      (shares.foldl (Tally.add pass outcome) ⟨0, 0, 0⟩).carried = (shares.map (contribution pass)).sum := by
  induction shares using List.reverseRecOn with
  | nil => exact ⟨fun _ h => absurd h List.not_mem_nil, rfl⟩
  | append_singleton rest share ih =>
      rw [List.foldl_append, List.foldl_cons, List.foldl_nil] at hf hp ⊢
      obtain ⟨hf', hp', hout, hcarried⟩ := Tally.add_clean outcome pass _ share hf hp
      obtain ⟨hall, hsum⟩ := ih hf' hp'
      refine ⟨?_, ?_⟩
      · intro other ho id he
        rw [List.mem_append, List.mem_singleton] at ho
        rcases ho with ho | rfl
        · exact hall other ho id he
        · exact hout id he
      · rw [hcarried, hsum, List.map_append, List.sum_append, List.map_singleton, List.sum_singleton]

end Tallies

section Current

variable (hfits : (tenants.rows.map (·.allTokens)).sum < TOKEN_LIMIT) (hrows : RowsCurrent tenants.rows)
  (hrec : ∀ tenant ∈ tenants.rows, Recorded tenant)

include hfits hrows hrec

-- Of the split a run makes and the one before it, one dominates what is written after the run.
theorem ran_dominates (hpos : 0 < (tenants.rows.map (·.allTokens)).sum)
    (hold : (∀ tenant ∈ tenants.rows, tenant.writtenHours = 0) ∨
      ∃ weights, Dominates weights hour.nodeHours tenants.rows) :
    ∃ weights, Dominates weights hour.nodeHours (tenants.rows.map (ranTenant price outcome tenants hour)) := by
  obtain ⟨hsplit, _⟩ := firstPass_shares tenants hfits hrows hour hpos
  have htotal := weightTotal_splitWeights tenants.rows
  have hopen : ∀ tenant ∈ tenants.rows, tenant.active = true → 0 < chargedTokens tenant.tokens →
      splitKey tenant ∈ splitWeights tenants.rows := fun tenant ht ha hc =>
    mem_splitWeights tenants.rows tenant ht (by simp [Tenant.inSplit, ha, hc])
  -- it is enough that a split of this total holds every tenant's hours and this run's shares
  have hbuild : ∀ weights, Splittable hour.nodeHours weights →
      weightTotal weights = (tenants.rows.map (·.allTokens)).sum →
      (∀ tenant ∈ tenants.rows, tenant.active = true → 0 < chargedTokens tenant.tokens →
        splitKey tenant ∈ weights) →
      (∀ tenant ∈ tenants.rows, tenant.writtenHours ≠ 0 →
        splitKey tenant ∈ weights ∧ tenant.writtenHours ≤ shareOf hour.nodeHours weights (splitKey tenant)) →
      (∀ tenant ∈ tenants.rows, splitKey tenant ∈ splitWeights tenants.rows → splitKey tenant ∈ weights →
        shareOf hour.nodeHours (splitWeights tenants.rows) (splitKey tenant) ≤
          shareOf hour.nodeHours weights (splitKey tenant)) →
      Dominates weights hour.nodeHours (tenants.rows.map (ranTenant price outcome tenants hour)) := by
    intro weights hs ht hop hcar hle
    refine ⟨hs, ?_, ?_, ?_⟩
    · rw [ranTenant_allTokens, ht]
    · intro after ha
      obtain ⟨tenant, hm, rfl⟩ := List.mem_map.mp ha
      rw [ranTenant_splitKey, (ranTenant_keeps price outcome tenants hour tenant).1,
        (ranTenant_keeps price outcome tenants hour tenant).2]
      exact hop tenant hm
    · intro after ha hne
      obtain ⟨tenant, hm, rfl⟩ := List.mem_map.mp ha
      rw [ranTenant_splitKey]
      obtain ⟨hran, _, _⟩ := ranTenant_spec price outcome tenants hour hfits hrows tenant hm (hrec tenant hm)
      rcases hran with ⟨hhours, _⟩ | ⟨hin, hw, _, hhours⟩
      · rw [hhours] at hne ⊢
        exact hcar tenant hm hne
      · have hactive : tenant.active = true ∧ 0 < chargedTokens tenant.tokens := by
          simpa [Tenant.inSplit, hw] using hin
        have hmem := hop tenant hm hactive.1 hactive.2
        rw [hhours]
        exact ⟨hmem, hle tenant hm (mem_splitWeights tenants.rows tenant hm hin) hmem⟩
  rcases hold with hnone | ⟨weights, hdom⟩
  · refine ⟨_, hbuild _ hsplit htotal hopen ?_ fun _ _ _ _ => le_rfl⟩
    exact fun tenant hm hne => absurd (hnone tenant hm) hne
  · rcases shareOf_nested hour.nodeHours weights (splitWeights tenants.rows) hdom.splittable hsplit
      (hdom.total.trans htotal.symm) with hle | hle
    · refine ⟨_, hbuild _ hsplit htotal hopen ?_ fun _ _ _ _ => le_rfl⟩
      intro tenant hm hne
      obtain ⟨hmem, hhours⟩ := hdom.carried tenant hm hne
      have hwritten : tenant.written = true := by
        by_contra hw
        exact hne (writtenHours_of_unwritten tenant (by simpa using hw))
      have hmem' := mem_splitWeights tenants.rows tenant hm (by simp [Tenant.inSplit, hwritten])
      exact ⟨hmem', hhours.trans (hle _ hmem hmem')⟩
    · exact ⟨weights, hbuild weights hdom.splittable hdom.total hdom.open_ hdom.carried
        fun tenant _ hnew hmem => hle _ hmem hnew⟩

-- When nothing failed or paused, the hours carried are those of the rows.
theorem carried_eq (hpos : 0 < (tenants.rows.map (·.allTokens)).sum)
    (hf : (((firstPass tenants).shares hour).foldl (Tally.add (firstPass tenants) outcome) ⟨0, 0, 0⟩).failed = 0)
    (hp : (((firstPass tenants).shares hour).foldl (Tally.add (firstPass tenants) outcome) ⟨0, 0, 0⟩).paused = 0) :
    (((firstPass tenants).shares hour).foldl (Tally.add (firstPass tenants) outcome) ⟨0, 0, 0⟩).carried =
      ((tenants.rows.map (ranTenant price outcome tenants hour)).map (·.writtenHours)).sum := by
  obtain ⟨_, hshares⟩ := firstPass_shares tenants hfits hrows hour hpos
  obtain ⟨hout, hcarried⟩ := tally_clean outcome (firstPass tenants) _ hf hp
  have heach : ∀ tenant ∈ tenants.rows, tenant.inSplit = true →
      contribution (firstPass tenants) ((splitKey tenant).1, shareOf hour.nodeHours (splitWeights tenants.rows)
        (splitKey tenant)) = (ranTenant price outcome tenants hour tenant).writtenHours := by
    intro tenant hm hin
    have hlookup := firstPass_written tenants hfits hrows tenant hm
    have hcontribution : contribution (firstPass tenants) ((splitKey tenant).1,
        shareOf hour.nodeHours (splitWeights tenants.rows) (splitKey tenant)) =
        ((firstPass tenants).written.lookup tenant.id).getD
          (shareOf hour.nodeHours (splitWeights tenants.rows) (splitKey tenant)) := rfl
    rw [hcontribution, hlookup]
    obtain ⟨hran, _, _⟩ := ranTenant_spec price outcome tenants hour hfits hrows tenant hm (hrec tenant hm)
    rcases hran with ⟨hhours, hskip⟩ | ⟨_, hw, _, hhours⟩
    · by_cases hw : tenant.written = true
      · rw [if_pos hw, hhours]
        rfl
      · have hshare : ((splitKey tenant).1, shareOf hour.nodeHours (splitWeights tenants.rows) (splitKey tenant)) ∈
            (firstPass tenants).shares hour := by
          rw [hshares]
          exact List.mem_map_of_mem (mem_splitWeights tenants.rows tenant hm hin)
        have hwritten := hout _ hshare tenant.id rfl (by rw [hlookup, if_neg hw])
        exact absurd hwritten (hskip hin (by simpa using hw))
    · rw [if_neg (by rw [hw]; exact Bool.false_ne_true), hhours]
      rfl
  have hother : ∀ tenant ∈ tenants.rows, ¬tenant.inSplit = true →
      (ranTenant price outcome tenants hour tenant).writtenHours = 0 := by
    intro tenant hm hin
    obtain ⟨hran, _, _⟩ := ranTenant_spec price outcome tenants hour hfits hrows tenant hm (hrec tenant hm)
    rcases hran with ⟨hhours, _⟩ | ⟨hin', _, _, _⟩
    · rw [hhours]
      refine writtenHours_of_unwritten tenant ?_
      by_contra hw
      exact hin (by simp [Tenant.inSplit, hw])
    · exact absurd hin' hin
  rw [hcarried, hshares, List.map_map, ((splitWeights_perm tenants.rows).map _).sum_eq, List.map_append,
    List.sum_append, List.map_map, List.map_map]
  have hplatform : ([(PLATFORM_KEY, (tenants.rows.map (·.keptTokens)).sum)].map
      (contribution (firstPass tenants) ∘ fun weight =>
        (weight.1, shareOf hour.nodeHours (splitWeights tenants.rows) weight))).sum = 0 := rfl
  rw [hplatform, add_zero]
  refine Eq.trans ?_ (Lists.sum_filter (fun tenant => (ranTenant price outcome tenants hour tenant).writtenHours) (·.inSplit)
    tenants.rows hother)
  refine congrArg List.sum (List.map_congr_left fun tenant hm => ?_)
  rw [List.mem_filter] at hm
  exact heach tenant hm.1 hm.2

end Current

end Runs

end AgenticOrg.Spend.Gpu
