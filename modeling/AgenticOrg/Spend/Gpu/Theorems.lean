import AgenticOrg.Spend.Gpu.Runs

namespace AgenticOrg.Spend.Gpu

open Tables

section Invariants

structure Invariant (state : State) : Prop where
  fits : state.tokens < TOKEN_LIMIT
  recorded : ∀ tenant ∈ state.tenants.rows, Recorded tenant
  pending : state.hour.status = .pending → ∀ tenant ∈ state.tenants.rows, tenant.allocation = none
  current : state.hour.status = .allocating → RowsCurrent state.tenants.rows
  split : state.hour.status = .allocating →
    ∃ weights, Dominates weights state.hour.nodeHours state.tenants.rows
  within : state.writtenHours ≤ state.hour.nodeHours
  closed : state.hour.status = .allocated →
    state.writtenHours + state.hour.skippedNodeHours = state.hour.nodeHours

theorem Invariant.conserved (state : State) (h : Invariant state) : Conserved state :=
  ⟨h.within, fun tenant ht hw => (h.recorded tenant ht).written hw, h.closed⟩

theorem hours_of_empty (rows : List Tenant) (h : ∀ tenant ∈ rows, tenant.allocation = none) (tenant : Tenant)
    (ht : tenant ∈ rows) : tenant.writtenHours = 0 := by
  rw [Tenant.writtenHours, h tenant ht]

theorem sum_hours_of_zero (rows : List Tenant) (h : ∀ tenant ∈ rows, tenant.writtenHours = 0) :
    (rows.map (·.writtenHours)).sum = 0 := by
  refine List.sum_eq_zero fun hours hm => ?_
  obtain ⟨tenant, ht, rfl⟩ := List.mem_map.mp hm
  exact h tenant ht

theorem Fresh.invariant (state : State) (h : Fresh state) (hfits : state.tokens < TOKEN_LIMIT) :
    Invariant state := by
  have hempty : ∀ tenant ∈ state.tenants.rows, tenant.allocation = none := fun tenant ht => (h.empty tenant ht).1
  have hzero := hours_of_empty state.tenants.rows hempty
  have hstatus : ∀ status, state.hour.status = status → status ≠ .pending → False := by
    rintro status hs hne
    exact hne (hs.symm.trans h.pending)
  refine ⟨hfits, ?_, fun _ => hempty, ?_, ?_, ?_, ?_⟩
  · intro tenant ht
    refine ⟨fun _ => (h.empty tenant ht).2, ?_, (hzero tenant ht).ge⟩
    intro hw
    rw [Tenant.written, hempty tenant ht] at hw
    cases hw
  · exact fun hs => (hstatus _ hs (by decide)).elim
  · exact fun hs => (hstatus _ hs (by decide)).elim
  · rw [State.writtenHours, sum_hours_of_zero _ hzero]
    exact state.hour.inRange.1.le
  · exact fun hs => (hstatus _ hs (by decide)).elim

theorem claim_some (stale : Bool) (hour claimed : PoolHour) (h : claim stale hour = some claimed) :
    (hour.status = .pending ∨ hour.status = .allocating) ∧ claimed.status = .allocating ∧
      claimed.nodeHours = hour.nodeHours := by
  unfold claim at h
  split at h
  · rename_i hs
    cases h
    exact ⟨.inl hs, rfl, rfl⟩
  · rename_i hs
    split at h
    · cases h
      exact ⟨.inr hs, hs, rfl⟩
    · cases h
  · cases h

-- A change of tenants that keeps their rows and records, and what they are charged while the hour is allocated.
structure Harmless (state : State) (f : Tenant → Tenant) : Prop where
  id : ∀ tenant, (f tenant).id = tenant.id
  allocation : ∀ tenant, (f tenant).allocation = tenant.allocation
  records : ∀ tenant, (f tenant).records = tenant.records
  active : ∀ tenant, (f tenant).active = true → tenant.active = true
  tokens : ∀ tenant, (f tenant).allTokens = tenant.allTokens
  charged : state.hour.status = .allocating → ∀ tenant ∈ state.tenants.rows,
    chargedTokens (f tenant).tokens = chargedTokens tenant.tokens

theorem Harmless.hours (state : State) (f : Tenant → Tenant) (h : Harmless state f) (tenant : Tenant) :
    (f tenant).writtenHours = tenant.writtenHours := by
  rw [Tenant.writtenHours, Tenant.writtenHours, h.allocation tenant]

theorem Harmless.recorded (state : State) (f : Tenant → Tenant) (h : Harmless state f) (tenant : Tenant)
    (hr : Recorded tenant) : Recorded (f tenant) := by
  have hwritten : (f tenant).written = tenant.written := by
    rw [Tenant.written, Tenant.written, h.allocation tenant]
  refine ⟨?_, ?_, ?_⟩
  · rw [hwritten, h.records tenant]
    exact hr.unwritten
  · rw [hwritten, h.hours, recordHours, h.records tenant]
    exact hr.written
  · rw [h.hours]
    exact hr.nonneg

theorem Harmless.dominates (state : State) (f : Tenant → Tenant) (h : Harmless state f)
    (hs : state.hour.status = .allocating) (weights : List (WithBot ℕ × ℕ))
    (hd : Dominates weights state.hour.nodeHours state.tenants.rows) :
    Dominates weights state.hour.nodeHours (state.tenants.rows.map f) := by
  have hkey : ∀ tenant ∈ state.tenants.rows, splitKey (f tenant) = splitKey tenant := by
    intro tenant ht
    rw [splitKey, splitKey, h.id, h.charged hs tenant ht]
  refine ⟨hd.splittable, ?_, ?_, ?_⟩
  · rw [hd.total, List.map_map]
    exact congrArg List.sum (List.map_congr_left fun tenant _ => (h.tokens tenant).symm)
  · intro after ha hactive hcharged
    obtain ⟨tenant, ht, rfl⟩ := List.mem_map.mp ha
    rw [h.charged hs tenant ht] at hcharged
    rw [hkey tenant ht]
    exact hd.open_ tenant ht (h.active tenant hactive) hcharged
  · intro after ha hne
    obtain ⟨tenant, ht, rfl⟩ := List.mem_map.mp ha
    rw [h.hours] at hne ⊢
    rw [hkey tenant ht]
    exact hd.carried tenant ht hne

theorem Invariant.harmless (state : State) (f : Tenant → Tenant)
    (hf : ∀ tenant, Keyed.key (f tenant) = Keyed.key tenant) (hstate : Invariant state) (h : Harmless state f) :
    Invariant { state with tenants := state.tenants.map f hf } := by
  have hhours : State.writtenHours { state with tenants := state.tenants.map f hf } = state.writtenHours := by
    unfold State.writtenHours Table.map
    rw [List.map_map]
    exact congrArg List.sum (List.map_congr_left fun tenant _ => h.hours state f tenant)
  have htokens : State.tokens { state with tenants := state.tenants.map f hf } = state.tokens := by
    unfold State.tokens Table.map
    rw [List.map_map]
    exact congrArg List.sum (List.map_congr_left fun tenant _ => h.tokens tenant)
  refine ⟨?_, ?_, ?_, ?_, ?_, ?_, ?_⟩
  · rw [htokens]
    exact hstate.fits
  · intro after ha
    obtain ⟨tenant, ht, rfl⟩ := List.mem_map.mp ha
    exact h.recorded state f tenant (hstate.recorded tenant ht)
  · intro hs after ha
    obtain ⟨tenant, ht, rfl⟩ := List.mem_map.mp ha
    rw [h.allocation]
    exact hstate.pending hs tenant ht
  · intro hs after ha row hrow
    obtain ⟨tenant, ht, rfl⟩ := List.mem_map.mp ha
    rw [h.allocation] at hrow
    rw [h.charged hs tenant ht]
    exact hstate.current hs tenant ht row hrow
  · intro hs
    obtain ⟨weights, hd⟩ := hstate.split hs
    exact ⟨weights, h.dominates state f hs weights hd⟩
  · rw [hhours]
    exact hstate.within
  · rw [hhours]
    exact hstate.closed

theorem harmless_delete (state : State) (id : ℕ) : Harmless state (Tenant.delete id) := by
  refine ⟨?_, ?_, ?_, ?_, ?_, ?_⟩ <;> intros <;> unfold Tenant.delete at * <;> split_ifs at * <;>
    first | rfl | contradiction | assumption

theorem restateTokens_quantities (index : ℕ) (amount : Option ℤ) (tokens : List TokenRecord) :
    (restateTokens index amount tokens).map (·.quantity) = tokens.map (·.quantity) := by
  induction tokens generalizing index with
  | nil => simp [restateTokens]
  | cons record rest ih =>
      cases index with
      | zero => simp [restateTokens]
      | succ index => simpa [restateTokens] using ih index

theorem harmless_restate (state : State) (id index : ℕ) (amount : Option ℤ)
    (h : Step.KeepsCharged state (.restate id index amount)) :
    Harmless state (Tenant.restate id index amount) := by
  refine ⟨?_, ?_, ?_, ?_, ?_, ?_⟩
  · intro tenant
    unfold Tenant.restate
    split_ifs <;> rfl
  · intro tenant
    unfold Tenant.restate
    split_ifs <;> rfl
  · intro tenant
    unfold Tenant.restate
    split_ifs <;> rfl
  · intro tenant ha
    unfold Tenant.restate at ha
    split_ifs at ha <;> exact ha
  · intro tenant
    unfold Tenant.restate Tenant.allTokens
    split_ifs
    · rw [restateTokens_quantities]
    · rfl
  · intro hs tenant ht
    unfold Tenant.restate
    split_ifs with hid
    · exact h hs tenant ht hid
    · rfl

-- The tenants after a run.
def ranTenants (price : ℕ → ℤ → Priced) (outcome : ℕ → Outcome) (tenants : Table Tenant) (hour : PoolHour) :
    Table Tenant :=
  (tenants.map freezeTenant freezeTenant_key).map
    (takeShare price outcome (firstPass tenants) ((firstPass tenants).shares hour))
    (takeShare_key price outcome (firstPass tenants) ((firstPass tenants).shares hour))

theorem rows_ranTenants (price : ℕ → ℤ → Priced) (outcome : ℕ → Outcome) (tenants : Table Tenant)
    (hour : PoolHour) :
    (ranTenants price outcome tenants hour).rows = tenants.rows.map (ranTenant price outcome tenants hour) :=
  List.map_map

-- What a run leaves as long as the written hours stay within the hour's.
theorem Invariant.ran (state : State) (price : ℕ → ℤ → Priced) (outcome : ℕ → Outcome) (claimed hour : PoolHour)
    (h : Invariant state) (hrows : RowsCurrent state.tenants.rows) (hopen : hour.status ≠ .pending)
    (hsplit : hour.status = .allocating →
      ∃ weights, Dominates weights hour.nodeHours (ranTenants price outcome state.tenants claimed).rows)
    (hwithin : State.writtenHours ⟨hour, ranTenants price outcome state.tenants claimed⟩ ≤ hour.nodeHours)
    (hclosed : hour.status = .allocated →
      State.writtenHours ⟨hour, ranTenants price outcome state.tenants claimed⟩ + hour.skippedNodeHours =
        hour.nodeHours) :
    Invariant ⟨hour, ranTenants price outcome state.tenants claimed⟩ := by
  have hspec := ranTenant_spec price outcome state.tenants claimed h.fits hrows
  refine ⟨?_, ?_, fun hs => absurd hs hopen, ?_, hsplit, hwithin, hclosed⟩
  · have htokens : State.tokens ⟨hour, ranTenants price outcome state.tenants claimed⟩ = state.tokens := by
      have hmap := ranTenant_allTokens price outcome state.tenants claimed
      rw [← rows_ranTenants] at hmap
      exact congrArg List.sum hmap
    rw [htokens]
    exact h.fits
  · intro after ha
    dsimp only at ha
    rw [rows_ranTenants] at ha
    obtain ⟨tenant, ht, rfl⟩ := List.mem_map.mp ha
    exact (hspec tenant ht (h.recorded tenant ht)).2.1
  · intro _ after ha row hrow
    dsimp only at ha
    rw [rows_ranTenants] at ha
    obtain ⟨tenant, ht, rfl⟩ := List.mem_map.mp ha
    rw [(ranTenant_keeps price outcome state.tenants claimed tenant).2]
    exact (hspec tenant ht (h.recorded tenant ht)).2.2 row hrow

theorem Invariant.allocateHour (state : State) (stale : Bool) (price : ℕ → ℤ → Priced) (outcome : ℕ → Outcome)
    (h : Invariant state) : Invariant (Gpu.allocateHour stale price outcome state) := by
  unfold Gpu.allocateHour
  rcases hc : claim stale state.hour with _ | hour
  · exact h
  obtain ⟨hstatus, hallocating, hnode⟩ := claim_some stale state.hour hour hc
  have hrows : RowsCurrent state.tenants.rows := by
    rcases hstatus with hs | hs
    · intro tenant ht row hrow
      rw [h.pending hs tenant ht] at hrow
      cases hrow
    · exact h.current hs
  have hold : (∀ tenant ∈ state.tenants.rows, tenant.writtenHours = 0) ∨
      ∃ weights, Dominates weights hour.nodeHours state.tenants.rows := by
    rcases hstatus with hs | hs
    · exact .inl (hours_of_empty state.tenants.rows (h.pending hs))
    · rw [hnode]
      exact .inr (h.split hs)
  have hsum : ∀ hour', State.writtenHours ⟨hour', ranTenants price outcome state.tenants hour⟩ =
      ((state.tenants.rows.map (ranTenant price outcome state.tenants hour)).map (·.writtenHours)).sum := by
    intro hour'
    rw [State.writtenHours, rows_ranTenants]
  have hnonneg : 0 ≤ ((state.tenants.rows.map (ranTenant price outcome state.tenants hour)).map
      (·.writtenHours)).sum := by
    refine List.sum_nonneg fun hours hm => ?_
    obtain ⟨after, ha, rfl⟩ := List.mem_map.mp hm
    obtain ⟨tenant, ht, rfl⟩ := List.mem_map.mp ha
    exact (ranTenant_spec price outcome state.tenants hour h.fits hrows tenant ht (h.recorded tenant ht)).2.1.nonneg
  by_cases hzero : (state.tenants.rows.map (·.allTokens)).sum = 0
  · -- an idle hour: no tenant has tokens, the hour is closed at once
    have htally : ((firstPass state.tenants).shares hour).foldl (Tally.add (firstPass state.tenants) outcome)
        ⟨0, 0, 0⟩ = ⟨0, 0, 0⟩ := by
      rw [shares_idle state.tenants hour h.fits hrows hzero]
      rfl
    have hnone : ∀ tenant ∈ state.tenants.rows, tenant.writtenHours = 0 := by
      rcases hold with hnone | ⟨weights, hd⟩
      · exact hnone
      · have hsome := hd.splittable.some
        rw [hd.total, hzero] at hsome
        exact absurd hsome (lt_irrefl 0)
    have hafter : ((state.tenants.rows.map (ranTenant price outcome state.tenants hour)).map
        (·.writtenHours)).sum = 0 := by
      refine sum_hours_of_zero _ fun after ha => ?_
      obtain ⟨tenant, ht, rfl⟩ := List.mem_map.mp ha
      obtain ⟨hran, _, _⟩ := ranTenant_spec price outcome state.tenants hour h.fits hrows tenant ht
        (h.recorded tenant ht)
      rcases hran with ⟨hhours, _⟩ | ⟨hin, hw, _, _⟩
      · rw [hhours, hnone tenant ht]
      · have hcharged : tenant.active = true ∧ 0 < chargedTokens tenant.tokens := by
          simpa [Tenant.inSplit, hw] using hin
        have hle := charged_le state.tenants tenant ht
        omega
    have hrange := hour.inRange.1
    dsimp only
    rw [htally, if_neg (by simp)]
    refine h.ran state price outcome hour (close hour (firstPass state.tenants) 0) hrows (by simp [close])
      (fun hs => absurd hs (by simp [close])) ?_ ?_
    · rw [hsum, hafter]
      exact hrange.le
    · intro _
      rw [hsum, hafter]
      simp [close, hrange.le]
  · obtain ⟨weights, hdom⟩ := ran_dominates price outcome state.tenants hour h.fits hrows h.recorded (by omega) hold
    have hids : ((state.tenants.rows.map (ranTenant price outcome state.tenants hour)).map (·.id)).Nodup := by
      rw [← rows_ranTenants]
      exact (ranTenants price outcome state.tenants hour).distinct
    have hwithin := hdom.within _ _ _ hids
    dsimp only
    split_ifs with hfailed
    · refine h.ran state price outcome hour hour hrows (by rw [hallocating]; decide) (fun _ => ⟨weights, ?_⟩) ?_ ?_
      · rw [rows_ranTenants]
        exact hdom
      · rw [hsum]
        exact hwithin
      · exact fun hs => absurd (hallocating.symm.trans hs) (by decide)
    · rw [not_or, not_not, not_not] at hfailed
      have hcarried := carried_eq price outcome state.tenants hour h.fits hrows h.recorded (by omega) hfailed.1
        hfailed.2
      refine h.ran state price outcome hour _ hrows (by simp [close]) (fun hs => absurd hs (by simp [close])) ?_ ?_
      · rw [hsum]
        exact hwithin
      · intro _
        rw [hsum]
        simp only [close]
        omega

theorem Invariant.step (state : State) (step : Step) (h : Invariant state) (hk : step.KeepsCharged state) :
    Invariant (state.step step) := by
  cases step with
  | run stale price outcome => exact h.allocateHour state stale price outcome
  | deleteTenant id => exact h.harmless state _ _ (harmless_delete state id)
  | restate id index amount => exact h.harmless state _ _ (harmless_restate state id index amount hk)

theorem Invariant.run (state : State) (steps : List Step) (h : Invariant state)
    (hk : KeepsChargedAlong state steps) : Invariant (state.run steps) := by
  induction steps generalizing state with
  | nil => exact h
  | cons step rest ih => exact ih (state.step step) (h.step state step hk.1) hk.2

-- Whatever the runs, the hours are conserved as long as no restatement changes what a tenant is charged while the
-- hour is being allocated.
theorem node_hours_conserved (start : State) (hfresh : Fresh start) (hfits : start.tokens < TOKEN_LIMIT)
    (steps : List Step) (hkept : KeepsChargedAlong start steps) : Conserved (start.run steps) :=
  Invariant.conserved _ ((hfresh.invariant start hfits).run start steps hkept)

section Examples

def freshHour : PoolHour where
  nodeHours := 1000000
  status := .pending
  totalTokens := none
  tenantCount := none
  pricedCallsSkipped := 0
  skippedNodeHours := 0
  idle := false
  inRange := by decide

def unpriced : ℕ → ℤ → Priced := fun _ _ => { amount := none, amountInr := none, currency := none }

def freshTenant (id : ℕ) (tokens : List TokenRecord) : Tenant :=
  { id, active := true, tokens, allocation := none, records := [] }

-- Three tokens of one tenant, two and two of another.
def sharedHour (amount : ℤ) : State where
  hour := freshHour
  tenants := ⟨[freshTenant 1 [⟨"a", 3000000, some 0⟩],
    freshTenant 2 [⟨"b", 2000000, some 0⟩, ⟨"c", 2000000, some amount⟩]], by simp [Keyed.key, freshTenant]⟩

theorem sharedHour_fresh (amount : ℤ) : Fresh (sharedHour amount) := by
  refine ⟨rfl, ?_⟩
  intro tenant ht
  simp only [sharedHour, List.mem_cons, List.not_mem_nil, or_false] at ht
  rcases ht with rfl | rfl <;> exact ⟨rfl, rfl⟩

-- The second tenant's write fails in the first run, its third record is restated, the hour is resumed.
def resumedSteps (amount : ℤ) : List Step :=
  [.run false unpriced fun id => if id = 1 then .written else .failed,
   .restate 2 1 (some amount),
   .run true unpriced fun _ => .written]

theorem node_hours_conserved_resumed :
    Fresh (sharedHour 5) ∧ KeepsChargedAlong (sharedHour 5) (resumedSteps 7) ∧
      Conserved ((sharedHour 5).run (resumedSteps 7)) ∧
      ((sharedHour 5).run (resumedSteps 7)).hour.status = .allocated := by
  have hkept : KeepsChargedAlong (sharedHour 5) (resumedSteps 7) :=
    ⟨trivial, by unfold Step.KeepsCharged; decide +kernel, trivial, trivial⟩
  exact ⟨sharedHour_fresh 5, hkept, node_hours_conserved (sharedHour 5) (sharedHour_fresh 5) (by decide) _ hkept,
    by decide +kernel⟩

-- A record priced above zero is restated to zero before the hour is resumed: a millionth of a node hour too many.
theorem resumed_hour_overspent :
    ¬∀ (start : State) (steps : List Step), Fresh start → start.tokens < TOKEN_LIMIT →
      Conserved (start.run steps) := by
  intro h
  have hconserved := h (sharedHour 5) (resumedSteps 0) (sharedHour_fresh 5) (by decide)
  have hover : ¬((sharedHour 5).run (resumedSteps 0)).writtenHours ≤
      ((sharedHour 5).run (resumedSteps 0)).hour.nodeHours := by decide +kernel
  exact hover hconserved.within

end Examples

end Invariants

end AgenticOrg.Spend.Gpu
