import AgenticOrg.Governance.ModelGatewayLimits
import Mathlib.Data.List.Nodup
import Mathlib.Data.List.Perm.Subperm

namespace AgenticOrg.Governance.ModelGatewayLimits

section Scripts

variable (store : Store) (key other : Key) (lease : String) (now expiry : ℚ) (maximum : ℕ)

theorem setLeases_same (set : LeaseSet) : (store.setLeases key set).leases key = set := if_pos rfl

theorem setLeases_other (set : LeaseSet) (h : other ≠ key) :
    (store.setLeases key set).leases other = store.leases other := if_neg h

theorem mem_without (entry : String × ℚ) (entries : List (String × ℚ)) :
    entry ∈ without lease entries ↔ entry ∈ entries ∧ entry.1 ≠ lease := by
  unfold without
  rw [List.mem_filter, decide_eq_true_eq]

theorem mem_pruned (entry : String × ℚ) (set : LeaseSet) : entry ∈ pruned set now ↔ entry ∈ set.entries ∧ now < entry.2 := by
  unfold pruned
  rw [List.mem_filter, decide_eq_true_eq]

theorem length_without_le (entries : List (String × ℚ)) : (without lease entries).length ≤ entries.length :=
  List.length_filter_le _ _

-- An acquisition is refused at the maximum; it prunes what has expired all the same.
theorem acquire_cases :
    (maximum ≤ (pruned (store.leases key) now).length ∧
      acquire store key now expiry maximum lease = (⟨false, (pruned (store.leases key) now).length⟩,
        store.setLeases key ⟨pruned (store.leases key) now, (store.leases key).expiresAt⟩)) ∨
    ((pruned (store.leases key) now).length < maximum ∧
      acquire store key now expiry maximum lease = (⟨true, (pruned (store.leases key) now).length + 1⟩,
        store.setLeases key ⟨without lease (pruned (store.leases key) now) ++ [(lease, expiry)],
          store.clock + (⌈expiry - now⌉ + 1)⟩)) := by
  by_cases hfull : maximum ≤ (pruned (store.leases key) now).length
  · exact .inl ⟨hfull, if_pos hfull⟩
  · exact .inr ⟨Nat.lt_of_not_le hfull, if_neg hfull⟩

theorem acquire_other (h : other ≠ key) :
    (acquire store key now expiry maximum lease).2.leases other = store.leases other := by
  rcases acquire_cases store key lease now expiry maximum with ⟨_, heq⟩ | ⟨_, heq⟩
  · rw [heq]
    exact setLeases_other store key other _ h
  · rw [heq]
    exact setLeases_other store key other _ h

theorem acquire_clock : (acquire store key now expiry maximum lease).2.clock = store.clock := by
  rcases acquire_cases store key lease now expiry maximum with ⟨_, heq⟩ | ⟨_, heq⟩
  · rw [heq]
    rfl
  · rw [heq]
    rfl

-- Under every entry of the lease lie fewer others than the maximum.
def Ranked (entries : List (String × ℚ)) : Prop :=
  ∀ (ahead : List (String × ℚ)) (expiry : ℚ), (ahead ++ [(lease, expiry)]).Sublist entries → ahead.length < maximum

theorem Ranked.sublist (entries kept : List (String × ℚ)) (h : Ranked lease maximum entries) (hsub : kept.Sublist entries) :
    Ranked lease maximum kept := fun ahead expiry hin => h ahead expiry (hin.trans hsub)

-- The entry at the end of a list of leases is the one the list ends with.
theorem sublist_append_singleton (lease : String) (ahead entries : List (String × ℚ)) (expiry : ℚ) (last : String × ℚ)
    (h : (ahead ++ [(lease, expiry)]).Sublist (entries ++ [last])) :
    (ahead ++ [(lease, expiry)]).Sublist entries ∨ ahead.Sublist entries ∧ (lease, expiry) = last := by
  obtain ⟨front, back, heq, hfront, hback⟩ := List.sublist_append_iff.mp h
  rcases List.sublist_singleton.mp hback with rfl | rfl
  · rw [List.append_nil] at heq
    exact .inl (heq ▸ hfront)
  · obtain ⟨rfl, hlast⟩ := List.append_inj' heq rfl
    exact .inr ⟨hfront, List.head_eq_of_cons_eq hlast⟩

theorem acquire_ranked_new (hadmitted : (acquire store key now expiry maximum lease).1.admitted = true) :
    Ranked lease maximum ((acquire store key now expiry maximum lease).2.leases key).entries := by
  rcases acquire_cases store key lease now expiry maximum with ⟨_, heq⟩ | ⟨hroom, heq⟩
  · rw [heq] at hadmitted
    cases hadmitted
  · rw [heq, setLeases_same]
    intro ahead own hin
    have hlength := hin.length_le
    have hwithout := length_without_le lease (pruned (store.leases key) now)
    rw [List.length_append, List.length_append, List.length_singleton, List.length_singleton] at hlength
    omega

-- Only the lease that is acquired is new.
theorem of_mem_acquire (entry : String × ℚ)
    (h : entry ∈ ((acquire store key now expiry maximum lease).2.leases other).entries) :
    entry ∈ (store.leases other).entries ∨ other = key ∧ entry = (lease, expiry) := by
  by_cases ho : other = key
  · subst ho
    rcases acquire_cases store other lease now expiry maximum with ⟨_, heq⟩ | ⟨_, heq⟩
    · rw [heq, setLeases_same] at h
      exact .inl ((mem_pruned now entry _).mp h).1
    · rw [heq, setLeases_same] at h
      rcases List.mem_append.mp h with hold | hnew
      · exact .inl ((mem_pruned now entry _).mp ((mem_without lease entry _).mp hold).1).1
      · exact .inr ⟨rfl, List.mem_singleton.mp hnew⟩
  · rw [acquire_other store key other lease now expiry maximum ho] at h
    exact .inl h

-- The lease of another stays where the reading has not reached its expiry.
theorem mem_acquire (entry : String × ℚ) (he : entry ∈ (store.leases other).entries) (hl : entry.1 ≠ lease)
    (hnow : other = key → now < entry.2) :
    entry ∈ ((acquire store key now expiry maximum lease).2.leases other).entries := by
  by_cases ho : other = key
  · subst ho
    have hin := (mem_pruned now entry _).mpr ⟨he, hnow rfl⟩
    rcases acquire_cases store other lease now expiry maximum with ⟨_, heq⟩ | ⟨_, heq⟩
    · rw [heq, setLeases_same]
      exact hin
    · rw [heq, setLeases_same]
      exact List.mem_append_left _ ((mem_without lease entry _).mpr ⟨hin, hl⟩)
  · rw [acquire_other store key other lease now expiry maximum ho]
    exact he

theorem acquire_expiresAt (deadline : ℚ) (hold : deadline ≤ (store.leases other).expiresAt)
    (hnew : deadline ≤ store.clock + (⌈expiry - now⌉ + 1)) :
    deadline ≤ ((acquire store key now expiry maximum lease).2.leases other).expiresAt := by
  by_cases ho : other = key
  · subst ho
    rcases acquire_cases store other lease now expiry maximum with ⟨_, heq⟩ | ⟨_, heq⟩
    · rw [heq, setLeases_same]
      exact hold
    · rw [heq, setLeases_same]
      exact hnew
  · rw [acquire_other store key other lease now expiry maximum ho]
    exact hold

theorem without_distinct (entries : List (String × ℚ)) (h : (entries.map Prod.fst).Nodup) :
    ((without lease entries).map Prod.fst).Nodup := h.sublist (List.filter_sublist.map _)

theorem pruned_distinct (set : LeaseSet) (h : (set.entries.map Prod.fst).Nodup) :
    ((pruned set now).map Prod.fst).Nodup := h.sublist (List.filter_sublist.map _)

theorem acquire_distinct (h : ((store.leases other).entries.map Prod.fst).Nodup) :
    (((acquire store key now expiry maximum lease).2.leases other).entries.map Prod.fst).Nodup := by
  by_cases ho : other = key
  · subst ho
    have hpruned := pruned_distinct now (store.leases other) h
    rcases acquire_cases store other lease now expiry maximum with ⟨_, heq⟩ | ⟨_, heq⟩
    · rw [heq, setLeases_same]
      exact hpruned
    · rw [heq, setLeases_same, List.map_append]
      refine List.nodup_append.mpr ⟨without_distinct lease _ hpruned, List.nodup_singleton _, ?_⟩
      rintro own hown named hnamed rfl
      obtain ⟨entry, hentry, rfl⟩ := List.mem_map.mp hown
      exact ((mem_without lease entry _).mp hentry).2 (List.mem_singleton.mp hnamed)
  · rw [acquire_other store key other lease now expiry maximum ho]
    exact h

-- A lease that is acquired comes after all there are.
theorem acquire_ranked (own : String) (bound : ℕ) (hl : own ≠ lease) (h : Ranked own bound (store.leases other).entries) :
    Ranked own bound ((acquire store key now expiry maximum lease).2.leases other).entries := by
  by_cases ho : other = key
  · subst ho
    have hpruned : Ranked own bound (pruned (store.leases other) now) := h.sublist own bound _ _ List.filter_sublist
    rcases acquire_cases store other lease now expiry maximum with ⟨_, heq⟩ | ⟨_, heq⟩
    · rw [heq, setLeases_same]
      exact hpruned
    · rw [heq, setLeases_same]
      intro ahead time hin
      rcases sublist_append_singleton own ahead _ time _ hin with hold | ⟨_, hlast⟩
      · exact hpruned ahead time (hold.trans List.filter_sublist)
      · exact absurd (congrArg Prod.fst hlast) hl
  · rw [acquire_other store key other lease now expiry maximum ho]
    exact h

theorem acquire_admitted (h : (acquire store key now expiry maximum lease).1.admitted = true) :
    (lease, expiry) ∈ ((acquire store key now expiry maximum lease).2.leases key).entries ∧
      ((acquire store key now expiry maximum lease).2.leases key).expiresAt =
        store.clock + (⌈expiry - now⌉ + 1) := by
  rcases acquire_cases store key lease now expiry maximum with ⟨_, heq⟩ | ⟨_, heq⟩
  · rw [heq] at h
    cases h
  · rw [heq, setLeases_same]
    exact ⟨List.mem_append_right _ (List.mem_singleton_self _), rfl⟩

-- A refused acquisition leaves no lease that was not there.
theorem acquire_refused (h : (acquire store key now expiry maximum lease).1.admitted = false) (entry : String × ℚ)
    (he : entry ∈ ((acquire store key now expiry maximum lease).2.leases other).entries) :
    entry ∈ (store.leases other).entries := by
  by_cases ho : other = key
  · subst ho
    rcases acquire_cases store other lease now expiry maximum with ⟨_, heq⟩ | ⟨_, heq⟩
    · rw [heq, setLeases_same] at he
      exact ((mem_pruned now entry _).mp he).1
    · rw [heq] at h
      cases h
  · rw [acquire_other store key other lease now expiry maximum ho] at he
    exact he

theorem mem_remove (entry : String × ℚ) :
    entry ∈ ((store.remove key lease).leases other).entries ↔
      entry ∈ (store.leases other).entries ∧ (other = key → entry.1 ≠ lease) := by
  unfold Store.remove
  by_cases ho : other = key
  · subst ho
    rw [setLeases_same, mem_without]
    exact and_congr_right fun _ => ⟨fun h _ => h, fun h => h rfl⟩
  · rw [setLeases_other store key other _ ho]
    exact ⟨fun h => ⟨h, fun heq => absurd heq ho⟩, fun h => h.1⟩

theorem remove_expiresAt : ((store.remove key lease).leases other).expiresAt = (store.leases other).expiresAt := by
  unfold Store.remove
  by_cases ho : other = key
  · subst ho
    rw [setLeases_same]
  · rw [setLeases_other store key other _ ho]

theorem remove_sublist :
    ((store.remove key lease).leases other).entries.Sublist (store.leases other).entries := by
  unfold Store.remove
  by_cases ho : other = key
  · subst ho
    rw [setLeases_same]
    exact List.filter_sublist
  · rw [setLeases_other store key other _ ho]

theorem tick_cases (later : ℚ) :
    ((store.tick later).leases key = ⟨[], (store.leases key).expiresAt⟩ ∧
      (store.leases key).expiresAt ≤ (store.tick later).clock) ∨ (store.tick later).leases key = store.leases key := by
  unfold Store.tick
  by_cases hgone : (store.leases key).expiresAt ≤ max store.clock later
  · exact .inl ⟨if_pos hgone, hgone⟩
  · exact .inr (if_neg hgone)

end Scripts

section Commands

variable (leaseSeconds : ℚ) (store : Store) (call : Call) (check : Check) (key : Key)

theorem expiry_sub : call.expiry leaseSeconds - call.now = leaseSeconds := add_sub_cancel_left _ _

theorem perform_clock : (perform leaseSeconds store call check).2.clock = store.clock := by
  cases check with
  | rate own rpm => rfl
  | concurrency own maximum => exact acquire_clock store own _ _ _ maximum

theorem of_mem_perform (entry : String × ℚ)
    (h : entry ∈ ((perform leaseSeconds store call check).2.leases key).entries) :
    entry ∈ (store.leases key).entries ∨
      check.slotKey = some key ∧ entry = (call.lease, call.expiry leaseSeconds) := by
  cases check with
  | rate own rpm => exact .inl h
  | concurrency own maximum =>
      refine (of_mem_acquire store own key _ _ _ maximum entry h).imp id fun hnew => ?_
      exact ⟨congrArg some hnew.1.symm, hnew.2⟩

theorem mem_perform (entry : String × ℚ) (he : entry ∈ (store.leases key).entries) (hl : entry.1 ≠ call.lease)
    (hnow : check.slotKey = some key → call.now < entry.2) :
    entry ∈ ((perform leaseSeconds store call check).2.leases key).entries := by
  cases check with
  | rate own rpm => exact he
  | concurrency own maximum =>
      exact mem_acquire store own key _ _ _ maximum entry he hl fun heq => hnow (congrArg some heq.symm)

theorem perform_expiresAt (deadline : ℚ) (hold : deadline ≤ (store.leases key).expiresAt)
    (hnew : deadline ≤ store.clock + (⌈leaseSeconds⌉ + 1)) :
    deadline ≤ ((perform leaseSeconds store call check).2.leases key).expiresAt := by
  cases check with
  | rate own rpm => exact hold
  | concurrency own maximum =>
      refine acquire_expiresAt store own key _ _ _ maximum deadline hold ?_
      rw [expiry_sub]
      exact hnew

theorem perform_distinct (h : ((store.leases key).entries.map Prod.fst).Nodup) :
    (((perform leaseSeconds store call check).2.leases key).entries.map Prod.fst).Nodup := by
  cases check with
  | rate own rpm => exact h
  | concurrency own maximum => exact acquire_distinct store own key _ _ _ maximum h

theorem perform_other (h : check.slotKey ≠ some key) :
    (perform leaseSeconds store call check).2.leases key = store.leases key := by
  cases check with
  | rate own rpm => rfl
  | concurrency own maximum => exact acquire_other store own key _ _ _ maximum fun heq => h (congrArg some heq.symm)

theorem perform_ranked (lease : String) (bound : ℕ) (hl : lease ≠ call.lease)
    (h : Ranked lease bound (store.leases key).entries) :
    Ranked lease bound ((perform leaseSeconds store call check).2.leases key).entries := by
  cases check with
  | rate own rpm => exact h
  | concurrency own maximum => exact acquire_ranked store own key _ _ _ maximum lease bound hl h

theorem perform_admitted (own : Key) (maximum : ℕ)
    (h : (perform leaseSeconds store call (.concurrency own maximum)).1 = none) :
    (acquire store own call.now (call.expiry leaseSeconds) maximum call.lease).1.admitted = true := by
  by_contra hno
  replace h : (if (acquire store own call.now (call.expiry leaseSeconds) maximum call.lease).1.admitted = true
    then none else some _) = none := h
  rw [if_neg hno] at h
  cases h

-- The slot of a check that passes is at the store, for as long as its key, after fewer others than its maximum.
theorem perform_passed (h : (perform leaseSeconds store call check).1 = none) (slot : Slot)
    (hslot : slotOf leaseSeconds store call check = some slot) :
    (call.lease, slot.expiry) ∈ ((perform leaseSeconds store call check).2.leases slot.key).entries ∧
      ((perform leaseSeconds store call check).2.leases slot.key).expiresAt = slot.deadline ∧
      Ranked call.lease slot.maximum ((perform leaseSeconds store call check).2.leases slot.key).entries := by
  cases check with
  | rate own rpm => cases hslot
  | concurrency own maximum =>
      cases hslot
      have hadmitted := perform_admitted leaseSeconds store call own maximum h
      obtain ⟨hentry, hexpires⟩ := acquire_admitted store own _ _ _ maximum hadmitted
      exact ⟨hentry, hexpires, acquire_ranked_new store own _ _ _ maximum hadmitted⟩

theorem slotOf_key : (slotOf leaseSeconds store call check).map Slot.key = check.slotKey := by
  cases check with
  | rate own rpm => rfl
  | concurrency own maximum => rfl

theorem slotOf_cases (slot : Slot) (h : slotOf leaseSeconds store call check = some slot) :
    check.slotKey = some slot.key ∧ slot.expiry = call.expiry leaseSeconds ∧
      slot.deadline = store.clock + (⌈leaseSeconds⌉ + 1) := by
  refine ⟨by rw [← slotOf_key leaseSeconds store call check, h]; rfl, ?_⟩
  cases check with
  | rate own rpm => cases h
  | concurrency own maximum =>
      cases h
      refine ⟨rfl, ?_⟩
      show store.clock + (⌈call.expiry leaseSeconds - call.now⌉ + 1) = _
      rw [expiry_sub]

-- A check that passes on a key gives the call a slot of it.
theorem exists_slotOf (h : check.slotKey = some key) :
    ∃ slot, slotOf leaseSeconds store call check = some slot ∧ slot.key = key := by
  rw [← slotOf_key leaseSeconds store call check] at h
  exact Option.map_eq_some_iff.mp h

-- The lease of the call itself stays on the keys it holds.
theorem own_mem_perform (h : (perform leaseSeconds store call check).1 = none)
    (he : (call.lease, call.expiry leaseSeconds) ∈ (store.leases key).entries) :
    (call.lease, call.expiry leaseSeconds) ∈ ((perform leaseSeconds store call check).2.leases key).entries := by
  by_cases hkey : check.slotKey = some key
  · obtain ⟨slot, hslot, rfl⟩ := exists_slotOf leaseSeconds store call check key hkey
    rw [← (slotOf_cases leaseSeconds store call check slot hslot).2.1]
    exact (perform_passed leaseSeconds store call check h slot hslot).1
  · rw [perform_other leaseSeconds store call check key hkey]
    exact he

theorem perform_refused (rejection : LimitRejected) (h : (perform leaseSeconds store call check).1 = some rejection)
    (entry : String × ℚ) (he : entry ∈ ((perform leaseSeconds store call check).2.leases key).entries) :
    entry ∈ (store.leases key).entries := by
  cases check with
  | rate own rpm => exact he
  | concurrency own maximum =>
      refine acquire_refused store own key call.lease call.now (call.expiry leaseSeconds) maximum ?_ entry he
      by_contra hyes
      rw [Bool.not_eq_false] at hyes
      replace h : (if (acquire store own call.now (call.expiry leaseSeconds) maximum call.lease).1.admitted = true
        then none else some _) = some rejection := h
      rw [if_pos hyes] at h
      cases h

end Commands

section Invariant

variable (leaseSeconds : ℚ) (system before after : System)

structure CallSound (call : Call) : Prop where
  checking : ∀ todo, call.stage = .checking todo → call.checks = call.checked ++ todo ∧ call.unavailable = false
  working : call.stage = .working → call.unavailable = false → call.checked = call.checks
  slots : call.inFlight = true → call.unavailable = false → heldKeys call = call.checked.filterMap Check.slotKey
  brokenOff : ∀ keys, call.stage = .leaving keys .unavailable → call.faulty = true
  degraded : call.unavailable = true → call.held = [] ∧ (call.connected = false ∨ call.faulty = true)
  expiry : ∀ slot ∈ call.held, slot.expiry = call.expiry leaseSeconds
  deadline : ∀ slot ∈ call.held, slot.deadline ≤ system.store.clock + (⌈leaseSeconds⌉ + 1)
  entry : call.inFlight = true → ∀ slot ∈ call.held, system.live slot = true →
    (call.lease, slot.expiry) ∈ (system.store.leases slot.key).entries ∧
      slot.deadline ≤ (system.store.leases slot.key).expiresAt
  ranked : call.inFlight = true → ∀ slot ∈ call.held, ∃ own ∈ call.held, own.key = slot.key ∧
    Ranked call.lease own.maximum (system.store.leases slot.key).entries
  clean : ∀ key, system.hasLease key call.lease → key ∈ call.owes ∨ key ∈ call.lost
  lossless : call.faulty = false → call.lost = []

structure Sound : Prop where
  leases : (system.calls.map Call.lease).Nodup
  calls : ∀ call ∈ system.calls, CallSound leaseSeconds system call
  distinct : ∀ key, ((system.store.leases key).entries.map Prod.fst).Nodup
  traced : ∀ key, ∀ entry ∈ (system.store.leases key).entries,
    ∃ call ∈ system.calls, entry = (call.lease, call.expiry leaseSeconds)

-- What one command, or the clock, does to a call that is not the one acting.
structure Spares (lease : String) : Prop where
  clock : before.store.clock ≤ after.store.clock
  readings : ∀ reading ∈ before.readings, reading ∈ after.readings
  entry : ∀ slot : Slot, after.live slot = true → slot.deadline ≤ before.store.clock + (⌈leaseSeconds⌉ + 1) →
    (lease, slot.expiry) ∈ (before.store.leases slot.key).entries →
    slot.deadline ≤ (before.store.leases slot.key).expiresAt →
      (lease, slot.expiry) ∈ (after.store.leases slot.key).entries ∧
        slot.deadline ≤ (after.store.leases slot.key).expiresAt
  ranked : ∀ key maximum, Ranked lease maximum (before.store.leases key).entries →
    Ranked lease maximum (after.store.leases key).entries
  clean : ∀ key, after.hasLease key lease → before.hasLease key lease

theorem live_iff (slot : Slot) : system.live slot = true ↔
    (∀ reading ∈ system.readings, reading.1 = slot.key → reading.2 < slot.expiry) ∧
      system.store.clock < slot.deadline := by
  unfold System.live
  rw [Bool.and_eq_true, List.all_eq_true, decide_eq_true_eq]
  refine and_congr_left fun _ => forall₂_congr fun reading _ => ?_
  rw [Bool.or_eq_true, decide_eq_true_eq, decide_eq_true_eq, ← imp_iff_not_or]

-- What is live now was live before.
theorem live_earlier (slot : Slot) (hc : before.store.clock ≤ after.store.clock)
    (hr : ∀ reading ∈ before.readings, reading ∈ after.readings) (h : after.live slot = true) :
    before.live slot = true := by
  rw [live_iff] at h ⊢
  exact ⟨fun reading hreading => h.1 reading (hr reading hreading), lt_of_le_of_lt hc h.2⟩

theorem CallSound.spared (call : Call) (h : CallSound leaseSeconds before call)
    (hs : Spares leaseSeconds before after call.lease) : CallSound leaseSeconds after call where
  checking := h.checking
  working := h.working
  slots := h.slots
  brokenOff := h.brokenOff
  degraded := h.degraded
  expiry := h.expiry
  deadline := by
    intro slot hslot
    have hold := h.deadline slot hslot
    have hclock := hs.clock
    linarith
  entry := by
    intro hflight slot hslot hlive
    obtain ⟨hentry, hexpires⟩ := h.entry hflight slot hslot (live_earlier before after slot hs.clock hs.readings hlive)
    exact hs.entry slot hlive (h.deadline slot hslot) hentry hexpires
  ranked := by
    intro hflight slot hslot
    obtain ⟨own, hown, hkey, hranked⟩ := h.ranked hflight slot hslot
    exact ⟨own, hown, hkey, hs.ranked slot.key own.maximum hranked⟩
  clean := fun key hlease => h.clean key (hs.clean key hlease)
  lossless := h.lossless

theorem Spares.refl (lease : String) (hstore : after.store = before.store) (hr : after.readings = before.readings) :
    Spares leaseSeconds before after lease where
  clock := by rw [hstore]
  readings := by
    rw [hr]
    exact fun _ h => h
  entry := by
    rw [hstore]
    exact fun _ _ _ he hx => ⟨he, hx⟩
  ranked := by
    rw [hstore]
    exact fun _ _ h => h
  clean := by
    unfold System.hasLease
    rw [hstore]
    exact fun _ h => h

theorem spares_tick (lease : String) (later : ℚ) (hstore : after.store = before.store.tick later)
    (hr : after.readings = before.readings) : Spares leaseSeconds before after lease where
  clock := by
    rw [hstore]
    exact le_max_left _ _
  readings := by
    rw [hr]
    exact fun _ h => h
  entry := by
    intro slot hlive _ he hx
    obtain ⟨_, hclock⟩ := (live_iff after slot).mp hlive
    rw [hstore] at hclock ⊢
    rcases tick_cases before.store slot.key later with ⟨_, hgone⟩ | hsame
    · exact absurd (lt_of_lt_of_le hclock hx) (not_lt.mpr hgone)
    · rw [hsame]
      exact ⟨he, hx⟩
  ranked := by
    intro key maximum h
    rw [hstore]
    rcases tick_cases before.store key later with ⟨hgone, _⟩ | hsame
    · rw [hgone]
      exact h.sublist lease maximum _ _ (List.nil_sublist _)
    · rw [hsame]
      exact h
  clean := by
    rintro key ⟨entry, hentry, hl⟩
    rw [hstore] at hentry
    rcases tick_cases before.store key later with ⟨hgone, _⟩ | hsame
    · rw [hgone] at hentry
      cases hentry
    · rw [hsame] at hentry
      exact ⟨entry, hentry, hl⟩

theorem spares_perform (lease : String) (call : Call) (check : Check) (hl : lease ≠ call.lease)
    (hstore : after.store = (perform leaseSeconds before.store call check).2)
    (hr : after.readings = before.readings ++ (check.slotKey.map fun key => (key, call.now)).toList) :
    Spares leaseSeconds before after lease where
  clock := by rw [hstore, perform_clock]
  readings := by
    rw [hr]
    exact fun _ h => List.mem_append_left _ h
  entry := by
    intro slot hlive hd he hx
    obtain ⟨hreadings, _⟩ := (live_iff after slot).mp hlive
    rw [hstore]
    refine ⟨mem_perform leaseSeconds before.store call check slot.key _ he hl fun hkey => ?_,
      perform_expiresAt leaseSeconds before.store call check slot.key slot.deadline hx hd⟩
    refine hreadings (slot.key, call.now) ?_ rfl
    rw [hr, hkey]
    exact List.mem_append_right _ (List.mem_singleton_self _)
  ranked := by
    rw [hstore]
    exact fun key maximum h => perform_ranked leaseSeconds before.store call check key lease maximum hl h
  clean := by
    rintro key ⟨entry, hentry, hel⟩
    rw [hstore] at hentry
    rcases of_mem_perform leaseSeconds before.store call check key entry hentry with hold | ⟨_, rfl⟩
    · exact ⟨entry, hold, hel⟩
    · exact absurd hel.symm hl

theorem spares_remove (lease : String) (key : Key) (other : String) (hl : lease ≠ other)
    (hstore : after.store = before.store.remove key other) (hr : after.readings = before.readings) :
    Spares leaseSeconds before after lease where
  clock := by
    rw [hstore]
    exact le_refl _
  readings := by
    rw [hr]
    exact fun _ h => h
  entry := by
    intro slot _ _ he hx
    rw [hstore, mem_remove, remove_expiresAt]
    exact ⟨⟨he, fun _ => hl⟩, hx⟩
  ranked := by
    rw [hstore]
    exact fun own maximum h => h.sublist lease maximum _ _ (remove_sublist before.store key own other)
  clean := by
    rintro own ⟨entry, hentry, hel⟩
    rw [hstore, mem_remove] at hentry
    exact ⟨entry, hentry.1, hel⟩

end Invariant

section Commanded

variable (leaseSeconds : ℚ) (store : Store) (call : Call)

-- What a command comes to: the check that ran at the store, where one did, the store and the call after it.
inductive Ran : Option Check → Store → Call → Prop
  | same : Ran none store call
  | ready (h : call.stage = .checking []) : Ran none store { call with stage := .working }
  | degraded (h : call.stage = .leaving [] .unavailable) :
      Ran none store { call with stage := .working, held := [], unavailable := true }
  | unanswered (check : Check) (todo : List Check) (h : call.stage = .checking (check :: todo)) :
      Ran none store (brokenOff call [])
  | lost (check : Check) (todo : List Check) (h : call.stage = .checking (check :: todo)) (left : List Key)
      (hleft : (perform leaseSeconds store call check).1 = none → left = check.slotKey.toList) :
      Ran (some check) (perform leaseSeconds store call check).2 (brokenOff call left)
  | passed (check : Check) (todo : List Check) (h : call.stage = .checking (check :: todo))
      (hpass : (perform leaseSeconds store call check).1 = none) :
      Ran (some check) (perform leaseSeconds store call check).2 (passed leaseSeconds store call check todo)
  | rejected (check : Check) (todo : List Check) (h : call.stage = .checking (check :: todo))
      (rejection : LimitRejected) (hreject : (perform leaseSeconds store call check).1 = some rejection) :
      Ran (some check) (perform leaseSeconds store call check).2
        { call with
          checked := call.checked ++ [check]
          stage := .leaving (heldKeys call) (.rejected rejection) }
  | kept (key : Key) (rest : List Key) (outcome : Outcome) (h : call.stage = .leaving (key :: rest) outcome) :
      Ran none store { call with stage := .leaving rest outcome, faulty := true, lost := call.lost ++ [key] }
  | left (key : Key) (rest : List Key) (outcome : Outcome) (h : call.stage = .leaving (key :: rest) outcome)
      (faulty : Bool) (hfaulty : faulty = false → call.faulty = false) :
      Ran none (store.remove key call.lease) { call with stage := .leaving rest outcome, faulty }

def Check.reading (now : ℚ) (check : Check) : Option (Key × ℚ) := check.slotKey.map fun key => (key, now)

theorem checkNext_ran (check : Check) (todo : List Check) (answered : Answered)
    (h : call.stage = .checking (check :: todo)) :
    ∃ ran, Ran leaseSeconds store call ran (checkNext leaseSeconds store call check todo answered).1
        (checkNext leaseSeconds store call check todo answered).2 ∧
      call.reading answered = ran.bind (Check.reading call.now) := by
  have hreading : answered ≠ .notRun → call.reading answered = Check.reading call.now check := by
    intro hrun
    unfold Call.reading
    rw [h]
    cases check with
    | rate key rpm => rfl
    | concurrency key maximum => exact if_neg hrun
  cases answered with
  | notRun =>
      refine ⟨none, .unanswered check todo h, ?_⟩
      unfold Call.reading
      rw [h]
      cases check with
      | rate key rpm => rfl
      | concurrency key maximum => rfl
  | lost =>
      refine ⟨some check, ?_, hreading (by decide)⟩
      unfold checkNext
      cases hperform : perform leaseSeconds store call check with
      | mk refusal stored =>
          have hfst : (perform leaseSeconds store call check).1 = refusal := by rw [hperform]
          have hsnd : stored = (perform leaseSeconds store call check).2 := by rw [hperform]
          cases refusal with
          | none =>
              simp only [hsnd]
              exact .lost check todo h _ fun _ => rfl
          | some rejection =>
              simp only [hsnd]
              refine .lost check todo h _ fun hpass => ?_
              rw [hfst] at hpass
              cases hpass
  | yes =>
      refine ⟨some check, ?_, hreading (by decide)⟩
      unfold checkNext
      cases hperform : perform leaseSeconds store call check with
      | mk refusal stored =>
          have hfst : (perform leaseSeconds store call check).1 = refusal := by rw [hperform]
          have hsnd : stored = (perform leaseSeconds store call check).2 := by rw [hperform]
          cases refusal with
          | none =>
              simp only [hsnd]
              exact .passed check todo h hfst
          | some rejection =>
              simp only [hsnd]
              exact .rejected check todo h rejection hfst

theorem command_ran (answered : Answered) :
    ∃ ran, Ran leaseSeconds store call ran (call.command leaseSeconds store answered).1
        (call.command leaseSeconds store answered).2 ∧
      call.reading answered = ran.bind (Check.reading call.now) := by
  have hnone : (∀ check todo, call.stage ≠ .checking (check :: todo)) → call.reading answered = none := by
    intro hno
    unfold Call.reading
    split
    · exact absurd ‹_› (hno _ _)
    · rfl
  unfold Call.command
  split
  · rename_i h
    refine ⟨none, .ready h, hnone fun check todo heq => ?_⟩
    rw [h] at heq
    cases heq
  · rename_i check todo h
    exact checkNext_ran leaseSeconds store call check todo answered h
  · rename_i key rest outcome h
    refine ⟨none, ?_, hnone fun check todo heq => ?_⟩
    · unfold leaveNext
      by_cases hrun : answered = .notRun
      · simp only [hrun, if_true, ne_eq, reduceCtorEq, not_false_eq_true, decide_true, Bool.or_true]
        exact .kept key rest outcome h
      · simp only [hrun, if_false, List.append_nil]
        refine .left key rest outcome h _ fun hf => ?_
        exact (Bool.or_eq_false_iff.mp hf).1
    · rw [h] at heq
      cases heq
  · rename_i h
    refine ⟨none, .degraded h, hnone fun check todo heq => ?_⟩
    rw [h] at heq
    cases heq
  · rename_i hready hchecking _ _
    exact ⟨none, .same, hnone fun check todo heq => hchecking check todo heq⟩

end Commanded

section Acting

variable (leaseSeconds : ℚ) (before after : System) (call acted : Call) (ran : Option Check)

-- The command spares every other call.
theorem Ran.spares (lease : String) (hl : lease ≠ call.lease)
    (h : Ran leaseSeconds before.store call ran after.store acted)
    (hr : after.readings = before.readings ++ (ran.bind (Check.reading call.now)).toList) :
    Spares leaseSeconds before after lease := by
  have hnone : ran = none → after.readings = before.readings := by
    rintro rfl
    exact hr.trans (List.append_nil _)
  generalize hstore : after.store = stored at h
  cases h with
  | same => exact Spares.refl leaseSeconds before after lease hstore (hnone rfl)
  | ready h => exact Spares.refl leaseSeconds before after lease hstore (hnone rfl)
  | degraded h => exact Spares.refl leaseSeconds before after lease hstore (hnone rfl)
  | unanswered check todo h => exact Spares.refl leaseSeconds before after lease hstore (hnone rfl)
  | lost check todo h left hleft => exact spares_perform leaseSeconds before after lease call check hl hstore hr
  | passed check todo h hpass => exact spares_perform leaseSeconds before after lease call check hl hstore hr
  | rejected check todo h rejection hreject =>
      exact spares_perform leaseSeconds before after lease call check hl hstore hr
  | kept key rest outcome h => exact Spares.refl leaseSeconds before after lease hstore (hnone rfl)
  | left key rest outcome h faulty hfaulty =>
      exact spares_remove leaseSeconds before after lease key call.lease hl hstore (hnone rfl)

-- A call that gives its slots back only answers for the keys it still has to, and for those nobody gives back.
theorem CallSound.leaving (h : CallSound leaseSeconds before call) (hclock : after.store.clock = before.store.clock)
    (checked : List Check) (keys : List Key) (outcome : Outcome) (faulty : Bool) (lost : List Key)
    (hfaulty : call.faulty = true → faulty = true) (houtcome : outcome = .unavailable → faulty = true)
    (hlost : faulty = false → lost = [])
    (hclean : ∀ key, after.hasLease key call.lease → key ∈ keys ∨ key ∈ lost) :
    CallSound leaseSeconds after { call with checked, stage := .leaving keys outcome, faulty, lost } where
  checking := fun todo heq => by cases heq
  working := fun heq => by cases heq
  slots := fun heq => by cases heq
  brokenOff := by
    intro own heq
    cases heq
    exact houtcome rfl
  degraded := fun hunavailable => (h.degraded hunavailable).imp id fun hwhy => hwhy.imp id hfaulty
  expiry := h.expiry
  deadline := by
    rw [hclock]
    exact h.deadline
  entry := fun heq => by cases heq
  ranked := fun heq => by cases heq
  clean := hclean
  lossless := hlost

theorem inFlight_checking (todo : List Check) (h : call.stage = .checking todo) : call.inFlight = true := by
  unfold Call.inFlight
  rw [h]

theorem owes_checking (todo : List Check) (h : call.stage = .checking todo) : call.owes = heldKeys call := by
  unfold Call.owes
  rw [h]

theorem owes_working (h : call.stage = .working) : call.owes = heldKeys call := by
  unfold Call.owes
  rw [h]

theorem owes_leaving (keys : List Key) (outcome : Outcome) (h : call.stage = .leaving keys outcome) :
    call.owes = keys := by
  unfold Call.owes
  rw [h]

-- The slot of the check is added to those the call has.
theorem CallSound.passed (h : CallSound leaseSeconds before call) (check : Check) (todo : List Check)
    (hstage : call.stage = .checking (check :: todo)) (hpass : (perform leaseSeconds before.store call check).1 = none)
    (hstore : after.store = (perform leaseSeconds before.store call check).2)
    (hr : ∀ reading ∈ before.readings, reading ∈ after.readings) :
    CallSound leaseSeconds after (passed leaseSeconds before.store call check todo) := by
  have hclock : after.store.clock = before.store.clock := by rw [hstore, perform_clock]
  have hheld : ∀ slot, slot ∈ (ModelGatewayLimits.passed leaseSeconds before.store call check todo).held ↔
      slot ∈ call.held ∨ slotOf leaseSeconds before.store call check = some slot := by
    intro slot
    show slot ∈ call.held ++ _ ↔ _
    rw [List.mem_append, Option.mem_toList]
  have hkeys : heldKeys (ModelGatewayLimits.passed leaseSeconds before.store call check todo) =
      heldKeys call ++ check.slotKey.toList := by
    show (call.held ++ (slotOf leaseSeconds before.store call check).toList).map Slot.key = _
    rw [List.map_append, ← slotOf_key leaseSeconds before.store call check]
    refine congrArg _ ?_
    cases slotOf leaseSeconds before.store call check with
    | none => rfl
    | some slot => rfl
  have hflight := inFlight_checking call _ hstage
  obtain ⟨hchecks, havailable⟩ := h.checking _ hstage
  refine ⟨fun rest hrest => ?_, fun heq => (by cases heq), fun _ _ => ?_, fun keys heq => (by cases heq),
    fun hunavailable => ?_, fun slot hs => ?_, fun slot hs => ?_, fun _ slot hs hlive => ?_, fun _ slot hs => ?_,
    fun key hlease => ?_, h.lossless⟩
  · cases hrest
    refine ⟨?_, havailable⟩
    rw [ModelGatewayLimits.passed, hchecks, List.append_assoc]
    rfl
  · rw [hkeys, h.slots hflight havailable]
    show _ = (call.checked ++ [check]).filterMap Check.slotKey
    rw [List.filterMap_append]
    refine congrArg _ ?_
    cases hkey : check.slotKey with
    | none => rw [List.filterMap_cons_none hkey, List.filterMap_nil, Option.toList_none]
    | some key => rw [List.filterMap_cons_some hkey, List.filterMap_nil, Option.toList_some]
  · replace hunavailable : call.unavailable = true := hunavailable
    rw [havailable] at hunavailable
    cases hunavailable
  · rcases (hheld slot).mp hs with hold | hnew
    · exact h.expiry slot hold
    · exact (slotOf_cases leaseSeconds before.store call check slot hnew).2.1
  · rw [hclock]
    rcases (hheld slot).mp hs with hold | hnew
    · exact h.deadline slot hold
    · exact le_of_eq (slotOf_cases leaseSeconds before.store call check slot hnew).2.2
  · rw [hstore]
    rcases (hheld slot).mp hs with hold | hnew
    · have hearlier := live_earlier before after slot (le_of_eq hclock.symm) hr hlive
      obtain ⟨hentry, hexpires⟩ := h.entry hflight slot hold hearlier
      rw [h.expiry slot hold] at hentry ⊢
      exact ⟨own_mem_perform leaseSeconds before.store call check slot.key hpass hentry,
        perform_expiresAt leaseSeconds before.store call check slot.key slot.deadline hexpires (h.deadline slot hold)⟩
    · obtain ⟨hentry, hexpires, _⟩ := perform_passed leaseSeconds before.store call check hpass slot hnew
      exact ⟨hentry, le_of_eq hexpires.symm⟩
  · rw [hstore]
    by_cases hkey : check.slotKey = some slot.key
    · obtain ⟨new, hnew, hsame⟩ := exists_slotOf leaseSeconds before.store call check slot.key hkey
      obtain ⟨_, _, hranked⟩ := perform_passed leaseSeconds before.store call check hpass new hnew
      exact ⟨new, (hheld new).mpr (.inr hnew), hsame, hsame ▸ hranked⟩
    · have hold : slot ∈ call.held := ((hheld slot).mp hs).resolve_right fun hnew =>
        hkey (slotOf_cases leaseSeconds before.store call check slot hnew).1
      obtain ⟨own, hown, hsame, hranked⟩ := h.ranked hflight slot hold
      refine ⟨own, (hheld own).mpr (.inl hown), hsame, ?_⟩
      rw [perform_other leaseSeconds before.store call check slot.key hkey]
      exact hranked
  · show key ∈ heldKeys (ModelGatewayLimits.passed leaseSeconds before.store call check todo) ∨ key ∈ call.lost
    rw [hkeys, List.mem_append]
    obtain ⟨entry, hentry, hl⟩ := hlease
    rw [hstore] at hentry
    rcases of_mem_perform leaseSeconds before.store call check key entry hentry with hold | ⟨hkey, _⟩
    · have hclean := h.clean key ⟨entry, hold, hl⟩
      rw [owes_checking call _ hstage] at hclean
      exact hclean.imp .inl id
    · rw [hkey]
      exact .inl (.inr (List.mem_singleton_self _))

-- Checks that broke off leave a lease only where the call had a slot, or where the answer that it had one was lost.
theorem CallSound.brokenOff_of (h : CallSound leaseSeconds before call) (todo : List Check)
    (hstage : call.stage = .checking todo) (hclock : after.store.clock = before.store.clock) (left : List Key)
    (hnew : ∀ key, after.hasLease key call.lease → before.hasLease key call.lease ∨ key ∈ left) :
    CallSound leaseSeconds after (ModelGatewayLimits.brokenOff call left) := by
  refine h.leaving leaseSeconds before after call hclock call.checked (heldKeys call) .unavailable true
    (call.lost ++ left) (fun _ => rfl) (fun _ => rfl) (fun heq => by cases heq) fun key hlease => ?_
  rw [List.mem_append]
  rcases hnew key hlease with hold | hleft
  · have hclean := h.clean key hold
    rw [owes_checking call _ hstage] at hclean
    exact hclean.imp id .inl
  · exact .inr (.inr hleft)

-- The call that acts stays sound.
theorem Ran.sound (h : CallSound leaseSeconds before call)
    (hran : Ran leaseSeconds before.store call ran after.store acted)
    (hr : after.readings = before.readings ++ (ran.bind (Check.reading call.now)).toList) :
    CallSound leaseSeconds after acted := by
  have hreadings : ∀ reading ∈ before.readings, reading ∈ after.readings := by
    rw [hr]
    exact fun _ h => List.mem_append_left _ h
  have hnone : ran = none → after.readings = before.readings := by
    rintro rfl
    exact hr.trans (List.append_nil _)
  generalize hstore : after.store = stored at hran
  cases hran with
  | same => exact h.spared leaseSeconds before after call (Spares.refl leaseSeconds before after _ hstore (hnone rfl))
  | ready hstage =>
      have hs := h.spared leaseSeconds before after call (Spares.refl leaseSeconds before after _ hstore (hnone rfl))
      have hflight := inFlight_checking call _ hstage
      obtain ⟨hchecks, _⟩ := h.checking [] hstage
      refine ⟨fun todo heq => (by cases heq), fun _ _ => ?_, fun _ => hs.slots hflight, fun keys heq => (by cases heq),
        hs.degraded, hs.expiry, hs.deadline, fun _ => hs.entry hflight, fun _ => hs.ranked hflight,
        fun key hlease => ?_, hs.lossless⟩
      · rw [List.append_nil] at hchecks
        exact hchecks.symm
      · have hclean := hs.clean key hlease
        rw [owes_checking call _ hstage] at hclean
        exact hclean
  | degraded hstage =>
      have hs := h.spared leaseSeconds before after call (Spares.refl leaseSeconds before after _ hstore (hnone rfl))
      refine ⟨fun todo heq => (by cases heq), fun _ heq => (by cases heq), fun _ heq => (by cases heq),
        fun keys heq => (by cases heq), fun _ => ⟨rfl, .inr (hs.brokenOff [] hstage)⟩, fun slot hs => (by cases hs),
        fun slot hs => (by cases hs), fun _ slot hs => (by cases hs), fun _ slot hs => (by cases hs),
        fun key hlease => ?_, hs.lossless⟩
      have hclean := hs.clean key hlease
      rw [owes_leaving call [] .unavailable hstage] at hclean
      exact hclean
  | unanswered check todo hstage =>
      refine h.brokenOff_of leaseSeconds before after call _ hstage (by rw [hstore]) [] fun key hlease => .inl ?_
      unfold System.hasLease at hlease ⊢
      rw [hstore] at hlease
      exact hlease
  | lost check todo hstage left hleft =>
      refine h.brokenOff_of leaseSeconds before after call _ hstage (by rw [hstore, perform_clock]) left ?_
      rintro key ⟨entry, hentry, hl⟩
      rw [hstore] at hentry
      cases hperform : (perform leaseSeconds before.store call check).1 with
      | some rejection =>
          exact .inl ⟨entry, perform_refused leaseSeconds before.store call check key rejection hperform entry hentry, hl⟩
      | none =>
          rw [hleft hperform]
          rcases of_mem_perform leaseSeconds before.store call check key entry hentry with hold | ⟨hkey, _⟩
          · exact .inl ⟨entry, hold, hl⟩
          · exact .inr (Option.mem_toList.mpr hkey)
  | passed check todo hstage hpass =>
      exact h.passed leaseSeconds before after call check todo hstage hpass hstore hreadings
  | rejected check todo hstage rejection hreject =>
      refine h.leaving leaseSeconds before after call (by rw [hstore, perform_clock]) _ _ _ call.faulty call.lost id
        (fun heq => by cases heq) h.lossless ?_
      rintro key ⟨entry, hentry, hl⟩
      rw [hstore] at hentry
      have hold := perform_refused leaseSeconds before.store call check key rejection hreject entry hentry
      have hclean := h.clean key ⟨entry, hold, hl⟩
      rw [owes_checking call _ hstage] at hclean
      exact hclean
  | kept key rest outcome hstage =>
      refine h.leaving leaseSeconds before after call (by rw [hstore]) call.checked _ _ true _ (fun _ => rfl)
        (fun _ => rfl) (fun heq => by cases heq) fun other hlease => ?_
      unfold System.hasLease at hlease
      rw [hstore] at hlease
      have hclean := h.clean other hlease
      rw [owes_leaving call _ _ hstage, List.mem_cons] at hclean
      rw [List.mem_append, List.mem_singleton]
      exact hclean.elim (fun howes => howes.elim (fun heq => .inr (.inr heq)) .inl) fun hlost => .inr (.inl hlost)
  | left key rest outcome hstage faulty hfaulty =>
      have hgrows : call.faulty = true → faulty = true := fun hf => by
        by_contra hno
        rw [hfaulty (Bool.eq_false_iff.mpr hno)] at hf
        cases hf
      refine h.leaving leaseSeconds before after call (by rw [hstore]; rfl) call.checked _ _ faulty call.lost hgrows
        (fun heq => hgrows (h.brokenOff _ (heq ▸ hstage))) (fun hno => h.lossless (hfaulty hno)) ?_
      rintro other ⟨entry, hentry, hl⟩
      rw [hstore, mem_remove] at hentry
      have hclean := h.clean other ⟨entry, hentry.1, hl⟩
      rw [owes_leaving call _ _ hstage] at hclean
      refine hclean.imp (fun howes => ?_) id
      rcases List.mem_cons.mp howes with rfl | hrest
      · exact absurd hl (hentry.2 rfl)
      · exact hrest

end Acting

section Steps

variable (normal : String → String) (leaseSeconds : ℚ) (before after : System)

-- A change of the calls in place, none of them another call.
theorem Sound.changed (hs : Sound leaseSeconds before) (change : Call → Call)
    (hcalls : after.calls = before.calls.map change)
    (hsame : ∀ call ∈ before.calls, (change call).lease = call.lease ∧ (change call).now = call.now)
    (hchange : ∀ call ∈ before.calls, CallSound leaseSeconds after (change call))
    (hdistinct : ∀ key, ((after.store.leases key).entries.map Prod.fst).Nodup)
    (htraced : ∀ key, ∀ entry ∈ (after.store.leases key).entries, entry ∈ (before.store.leases key).entries ∨
      ∃ call ∈ before.calls, entry = (call.lease, call.expiry leaseSeconds)) : Sound leaseSeconds after := by
  have hmem : ∀ call ∈ before.calls, change call ∈ after.calls := by
    rw [hcalls]
    exact fun call hcall => List.mem_map_of_mem hcall
  refine ⟨?_, ?_, hdistinct, fun key entry hentry => ?_⟩
  · have hleases : before.calls.map (Call.lease ∘ change) = before.calls.map Call.lease :=
      List.map_congr_left fun call hcall => (hsame call hcall).1
    rw [hcalls, List.map_map, hleases]
    exact hs.leases
  · rw [hcalls]
    intro call hcall
    obtain ⟨earlier, hearlier, rfl⟩ := List.mem_map.mp hcall
    exact hchange earlier hearlier
  · have htraces : ∃ call ∈ before.calls, entry = (call.lease, call.expiry leaseSeconds) := by
      rcases htraced key entry hentry with hold | hnew
      · exact hs.traced key entry hold
      · exact hnew
    obtain ⟨call, hcall, rfl⟩ := htraces
    refine ⟨change call, hmem call hcall, ?_⟩
    obtain ⟨hlease, hnow⟩ := hsame call hcall
    unfold Call.expiry
    rw [hlease, hnow]

theorem tick_sound (hs : Sound leaseSeconds before) (later : ℚ) :
    Sound leaseSeconds { before with store := before.store.tick later } := by
  refine hs.changed leaseSeconds before _ id ?_ (fun _ _ => ⟨rfl, rfl⟩) (fun call hcall => ?_) (fun key => ?_)
    fun key entry hentry => ?_
  · rw [List.map_id]
  · exact (hs.calls call hcall).spared leaseSeconds before _ call
      (spares_tick leaseSeconds before _ call.lease later rfl rfl)
  · rcases tick_cases before.store key later with ⟨hgone, _⟩ | hsame
    · simp only [hgone]
      exact List.nodup_nil
    · simp only [hsame]
      exact hs.distinct key
  · rcases tick_cases before.store key later with ⟨hgone, _⟩ | hsame
    · simp only [hgone] at hentry
      cases hentry
    · simp only [hsame] at hentry
      exact .inl hentry

theorem Ran.same_call (call acted : Call) (ran : Option Check) (store stored : Store)
    (h : Ran leaseSeconds store call ran stored acted) : acted.lease = call.lease ∧ acted.now = call.now := by
  cases h with
  | same => exact ⟨rfl, rfl⟩
  | ready h => exact ⟨rfl, rfl⟩
  | degraded h => exact ⟨rfl, rfl⟩
  | unanswered check todo h => exact ⟨rfl, rfl⟩
  | lost check todo h left hleft => exact ⟨rfl, rfl⟩
  | passed check todo h hpass => exact ⟨rfl, rfl⟩
  | rejected check todo h rejection hreject => exact ⟨rfl, rfl⟩
  | kept key rest outcome h => exact ⟨rfl, rfl⟩
  | left key rest outcome h faulty hfaulty => exact ⟨rfl, rfl⟩

-- What ran at the store was a check of the call, a removal, or nothing.
theorem Ran.store_cases (call acted : Call) (ran : Option Check) (store stored : Store)
    (h : Ran leaseSeconds store call ran stored acted) :
    stored = store ∨ (∃ key, stored = store.remove key call.lease) ∨
      ∃ check, stored = (perform leaseSeconds store call check).2 := by
  cases h with
  | same => exact .inl rfl
  | ready h => exact .inl rfl
  | degraded h => exact .inl rfl
  | unanswered check todo h => exact .inl rfl
  | lost check todo h left hleft => exact .inr (.inr ⟨check, rfl⟩)
  | passed check todo h hpass => exact .inr (.inr ⟨check, rfl⟩)
  | rejected check todo h rejection hreject => exact .inr (.inr ⟨check, rfl⟩)
  | kept key rest outcome h => exact .inl rfl
  | left key rest outcome h faulty hfaulty => exact .inr (.inl ⟨key, rfl⟩)

theorem command_sound (hs : Sound leaseSeconds before) (call : Call) (hcall : call ∈ before.calls)
    (answered : Answered) : Sound leaseSeconds (before.command leaseSeconds call answered) := by
  obtain ⟨ran, hran, hreading⟩ := command_ran leaseSeconds before.store call answered
  have hr : (before.command leaseSeconds call answered).readings =
      before.readings ++ (ran.bind (Check.reading call.now)).toList := by
    rw [← hreading]
    rfl
  have hstores := hran.store_cases leaseSeconds call _ ran before.store _
  have hone : ∀ other ∈ before.calls, other.lease = call.lease → other = call := fun other hother heq =>
    List.inj_on_of_nodup_map hs.leases hother hcall heq
  refine hs.changed leaseSeconds before _ (fun other => if other.lease = call.lease then
    (call.command leaseSeconds before.store answered).2 else other) rfl (fun other hother => ?_)
    (fun other hother => ?_) (fun key => ?_) fun key entry hentry => ?_
  · by_cases ho : other.lease = call.lease
    · rw [if_pos ho, hone other hother ho]
      exact hran.same_call leaseSeconds call _ ran before.store _
    · rw [if_neg ho]
      exact ⟨rfl, rfl⟩
  · by_cases ho : other.lease = call.lease
    · rw [if_pos ho]
      exact Ran.sound leaseSeconds before _ call _ ran (hs.calls call hcall) hran hr
    · rw [if_neg ho]
      exact (hs.calls other hother).spared leaseSeconds before _ other
        (Ran.spares leaseSeconds before _ call _ ran other.lease ho hran hr)
  · show (((call.command leaseSeconds before.store answered).1.leases key).entries.map Prod.fst).Nodup
    rcases hstores with hsame | ⟨own, hremoved⟩ | ⟨check, hperformed⟩
    · rw [hsame]
      exact hs.distinct key
    · rw [hremoved]
      exact (hs.distinct key).sublist ((remove_sublist before.store own key call.lease).map _)
    · rw [hperformed]
      exact perform_distinct leaseSeconds before.store call check key (hs.distinct key)
  · replace hentry : entry ∈ ((call.command leaseSeconds before.store answered).1.leases key).entries := hentry
    rcases hstores with hsame | ⟨own, hremoved⟩ | ⟨check, hperformed⟩
    · rw [hsame] at hentry
      exact .inl hentry
    · rw [hremoved, mem_remove] at hentry
      exact .inl hentry.1
    · rw [hperformed] at hentry
      exact (of_mem_perform leaseSeconds before.store call check key entry hentry).imp id
        fun hnew => ⟨call, hcall, hnew.2⟩

-- A change of one call that leaves the store alone.
theorem update_sound (hs : Sound leaseSeconds before) (lease : String) (change : Call → Call)
    (hsame : ∀ call, (change call).lease = call.lease ∧ (change call).now = call.now)
    (hchange : ∀ call, CallSound leaseSeconds before call → CallSound leaseSeconds before (change call)) :
    Sound leaseSeconds (before.update lease change) := by
  refine hs.changed leaseSeconds before _ (fun call => if call.lease = lease then change call else call) rfl
    (fun call _ => ?_) (fun call hcall => ?_) hs.distinct fun key entry hentry => .inl hentry
  · by_cases hl : call.lease = lease
    · rw [if_pos hl]
      exact hsame call
    · rw [if_neg hl]
      exact ⟨rfl, rfl⟩
  · have hspared : ∀ other, CallSound leaseSeconds before other →
        CallSound leaseSeconds (before.update lease change) other := fun other hother =>
      hother.spared leaseSeconds before _ other (Spares.refl leaseSeconds before _ other.lease rfl rfl)
    by_cases hl : call.lease = lease
    · rw [if_pos hl]
      exact hspared _ (hchange call (hs.calls call hcall))
    · rw [if_neg hl]
      exact hspared _ (hs.calls call hcall)

theorem finish_sound (call : Call) (connected : Bool) (h : CallSound leaseSeconds before call) :
    CallSound leaseSeconds before (call.finish connected) := by
  unfold Call.finish
  by_cases hw : call.stage = .working
  · rw [if_pos hw]
    refine h.leaving leaseSeconds before before call rfl call.checked _ _ _ _ (fun hf => ?_) (fun heq => by cases heq)
      (fun hf => ?_) fun key hlease => ?_
    · rw [hf, Bool.true_or]
    · obtain ⟨hf, hc⟩ := Bool.or_eq_false_iff.mp hf
      rw [h.lossless hf]
      cases connected with
      | true => rfl
      | false =>
          have hempty : call.held = [] := by simpa using hc
          unfold heldKeys
          rw [hempty]
          rfl
    · have hclean := h.clean key hlease
      rw [owes_working call hw] at hclean
      rw [List.mem_append]
      cases connected with
      | true => exact hclean.imp id .inl
      | false => exact .inr hclean.symm
  · rw [if_neg hw]
    exact h

theorem die_sound (call : Call) (h : CallSound leaseSeconds before call) : CallSound leaseSeconds before call.die where
  checking := fun todo heq => by cases heq
  working := fun heq => by cases heq
  slots := fun heq => by cases heq
  brokenOff := fun _ _ => rfl
  degraded := fun hunavailable => ⟨(h.degraded hunavailable).1, .inr rfl⟩
  expiry := h.expiry
  deadline := h.deadline
  entry := fun heq => by cases heq
  ranked := fun heq => by cases heq
  clean := fun key hlease => .inr (List.mem_append.mpr (h.clean key hlease).symm)
  lossless := fun heq => by cases heq

-- A new call has no lease yet.
theorem newCall_sound (lease tenantId : String) (limits : List Limit) (now : ℚ) (connected : Bool)
    (hnew : ∀ key, ¬before.hasLease key lease) :
    CallSound leaseSeconds before (newCall lease tenantId limits now connected) := by
  have hunavailable : (newCall lease tenantId limits now connected).unavailable = true ↔
      ¬(connected = true ∨ limits = []) := by
    show (!(connected || limits.isEmpty)) = true ↔ _
    rw [Bool.not_eq_true', ← Bool.not_eq_true, Bool.or_eq_true, List.isEmpty_iff]
  refine ⟨fun todo hstage => ?_, fun hstage havailable => ?_, fun _ _ => rfl, fun keys hstage => ?_,
    fun hun => ⟨rfl, .inl ?_⟩, fun slot hslot => (by cases hslot), fun slot hslot => (by cases hslot),
    fun _ slot hslot => (by cases hslot), fun _ slot hslot => (by cases hslot),
    fun key hlease => absurd hlease (hnew key), fun _ => rfl⟩
  · by_cases hopen : connected = true ∨ limits = []
    · refine ⟨?_, Bool.eq_false_iff.mpr fun heq => hunavailable.mp heq hopen⟩
      replace hstage : (if connected = true ∨ limits = [] then Stage.checking (limits.flatMap (checksOf tenantId))
        else .working) = .checking todo := hstage
      rw [if_pos hopen] at hstage
      cases hstage
      rfl
    · replace hstage : (if connected = true ∨ limits = [] then Stage.checking (limits.flatMap (checksOf tenantId))
        else .working) = .checking todo := hstage
      rw [if_neg hopen] at hstage
      cases hstage
  · by_cases hopen : connected = true ∨ limits = []
    · replace hstage : (if connected = true ∨ limits = [] then Stage.checking (limits.flatMap (checksOf tenantId))
        else .working) = .working := hstage
      rw [if_pos hopen] at hstage
      cases hstage
    · rw [hunavailable.mpr hopen] at havailable
      cases havailable
  · replace hstage : (if connected = true ∨ limits = [] then Stage.checking (limits.flatMap (checksOf tenantId))
      else .working) = .leaving keys .unavailable := hstage
    split at hstage
    · cases hstage
    · cases hstage
  · exact Bool.eq_false_iff.mpr fun heq => hunavailable.mp hun (.inl heq)

theorem admit_sound (hs : Sound leaseSeconds before) (lease tenantId : String) (limits : List Limit) (now : ℚ)
    (connected : Bool) (hnew : lease ∉ before.calls.map Call.lease) :
    Sound leaseSeconds { before with calls := before.calls ++ [newCall lease tenantId limits now connected] } := by
  have hspared : ∀ call, CallSound leaseSeconds before call → CallSound leaseSeconds
      { before with calls := before.calls ++ [newCall lease tenantId limits now connected] } call := fun call h =>
    h.spared leaseSeconds before _ call (Spares.refl leaseSeconds before _ call.lease rfl rfl)
  refine ⟨?_, fun call hcall => ?_, hs.distinct, fun key entry hentry => ?_⟩
  · rw [List.map_append]
    refine List.nodup_append.mpr ⟨hs.leases, List.nodup_singleton _, fun own hown other hother => ?_⟩
    rintro rfl
    rw [List.map_singleton, List.mem_singleton] at hother
    replace hother : own = lease := hother
    exact hnew (hother ▸ hown)
  · rcases List.mem_append.mp hcall with hold | hadded
    · exact hspared call (hs.calls call hold)
    · obtain rfl := List.mem_singleton.mp hadded
      refine hspared _ (newCall_sound leaseSeconds before lease tenantId limits now connected ?_)
      rintro key ⟨entry, hentry, hl⟩
      obtain ⟨own, hown, rfl⟩ := hs.traced key entry hentry
      exact hnew (List.mem_map.mpr ⟨own, hown, hl⟩)
  · obtain ⟨call, hcall, heq⟩ := hs.traced key entry hentry
    exact ⟨call, List.mem_append_left _ hcall, heq⟩

theorem step_sound (hs : Sound leaseSeconds before) (step : Step) :
    Sound leaseSeconds (before.step normal leaseSeconds step) := by
  cases step with
  | tick later => exact tick_sound leaseSeconds before hs later
  | admission lease tenantId provider model limits now connected =>
      unfold System.step
      by_cases hold : lease ∈ before.calls.map Call.lease
      · simp only [hold, if_true]
        exact hs
      · simp only [hold, if_false]
        exact admit_sound leaseSeconds before hs lease tenantId _ now connected hold
  | command lease answered =>
      simp only [System.step]
      split
      · exact hs
      · rename_i call hfind
        exact command_sound leaseSeconds before hs call (List.mem_of_find?_eq_some hfind) answered
  | finish lease connected =>
      refine update_sound leaseSeconds before hs lease _ (fun call => ?_)
        fun call => finish_sound leaseSeconds before call connected
      unfold Call.finish
      split
      · exact ⟨rfl, rfl⟩
      · exact ⟨rfl, rfl⟩
  | die lease =>
      exact update_sound leaseSeconds before hs lease _ (fun call => ⟨rfl, rfl⟩)
        fun call => die_sound leaseSeconds before call

theorem newSystem_sound (clock : ℚ) : Sound leaseSeconds (newSystem clock) where
  leases := List.nodup_nil
  calls := fun call hcall => by cases hcall
  distinct := fun _ => List.nodup_nil
  traced := fun key entry hentry => by cases hentry

theorem run_sound (hs : Sound leaseSeconds before) (steps : List Step) :
    Sound leaseSeconds (before.run normal leaseSeconds steps) := by
  induction steps generalizing before with
  | nil => exact hs
  | cons step steps ih => exact ih _ (step_sound normal leaseSeconds before hs step)

end Steps

section Maxima

end Maxima

section Results

variable (normal : String → String) (leaseSeconds : ℚ)

-- A call is refused only where that many calls, none expired for its reading, are in flight on the key, have still to
-- give it back or have left a lease there that nobody gives back.
theorem refusal_justified (system : System) (hs : Sound leaseSeconds system) (key : Key) (now expiry : ℚ)
    (maximum : ℕ) (lease : String)
    (h : (acquire system.store key now expiry maximum lease).1.admitted = false) :
    maximum ≤ (system.calls.filter fun call =>
      decide (now < call.now + leaseSeconds ∧ (key ∈ call.owes ∨ key ∈ call.lost))).length := by
  rcases acquire_cases system.store key lease now expiry maximum with ⟨hfull, _⟩ | ⟨_, heq⟩
  · refine Nat.le_trans hfull ?_
    have hdistinct := pruned_distinct now (system.store.leases key) (hs.distinct key)
    have hsub : (pruned (system.store.leases key) now).map Prod.fst ⊆ (system.calls.filter fun call =>
        decide (now < call.now + leaseSeconds ∧ (key ∈ call.owes ∨ key ∈ call.lost))).map Call.lease := by
      intro own hown
      obtain ⟨entry, hentry, rfl⟩ := List.mem_map.mp hown
      obtain ⟨hin, hlater⟩ := (mem_pruned now entry _).mp hentry
      obtain ⟨call, hcall, rfl⟩ := hs.traced key entry hin
      refine List.mem_map.mpr ⟨call, List.mem_filter.mpr ⟨hcall, ?_⟩, rfl⟩
      exact decide_eq_true ⟨hlater, (hs.calls call hcall).clean key ⟨_, hin, rfl⟩⟩
    have hlength := (hdistinct.subperm hsub).length_le
    rwa [List.length_map, List.length_map] at hlength
  · rw [heq] at h
    cases h

-- A call works with a slot on each of its concurrency limits, or, where the store could not be reached or left a
-- command unanswered, with none; a call that ended leaves a lease only where nobody gives it back; and no call is
-- refused for a slot that is neither held nor left so.
theorem slots_accounted (clock : ℚ) (steps : List Step) :
    let system := (newSystem clock).run normal leaseSeconds steps
    (∀ call ∈ system.calls, call.stage = .working →
      (call.unavailable = false → heldKeys call = call.checks.filterMap Check.slotKey) ∧
      (call.unavailable = true → call.held = [] ∧ (call.connected = false ∨ call.faulty = true))) ∧
    (∀ call ∈ system.calls, (∃ outcome, call.stage = .leaving [] outcome) →
      (∀ key, system.hasLease key call.lease → key ∈ call.lost) ∧ (call.faulty = false → call.lost = [])) ∧
    ∀ key now expiry maximum lease, (acquire system.store key now expiry maximum lease).1.admitted = false →
      maximum ≤ (system.calls.filter fun call =>
        decide (now < call.now + leaseSeconds ∧ (key ∈ call.owes ∨ key ∈ call.lost))).length := by
  intro system
  have hs : Sound leaseSeconds system := run_sound normal leaseSeconds _ (newSystem_sound leaseSeconds clock) steps
  refine ⟨fun call hcall hworking => ⟨fun havailable => ?_, (hs.calls call hcall).degraded⟩, ?_,
    fun key now expiry maximum lease hrefused => ?_⟩
  · have hsound := hs.calls call hcall
    have hflight : call.inFlight = true := by
      unfold Call.inFlight
      rw [hworking]
    rw [hsound.slots hflight havailable, hsound.working hworking havailable]
  · rintro call hcall ⟨outcome, hleft⟩
    refine ⟨fun key hlease => ?_, (hs.calls call hcall).lossless⟩
    have hclean := (hs.calls call hcall).clean key hlease
    rw [owes_leaving call [] outcome hleft] at hclean
    exact hclean.resolve_left List.not_mem_nil
  · exact refusal_justified leaseSeconds system hs key now expiry maximum lease hrefused

end Results

end AgenticOrg.Governance.ModelGatewayLimits
