import AgenticOrg.Commerce.Idempotency

namespace AgenticOrg.Commerce.Idempotency

section Statements

def Event.isStart : Event → Bool
  | .started .. => true
  | _ => false

-- The execution that claimed the key last.
def lastStart (history : List Event) : Option Event := history.find? Event.isStart

-- What an event says of the events before it.
def Sound : Event → List Event → Prop
  -- An execution starts while an earlier one is retained only when that one was answered 500 or above and released.
  | .started _ _ _ at_, earlier => ∀ id request claimedAt startedAt, .started id request claimedAt startedAt ∈ earlier →
      at_ < claimedAt + RETENTION → ∃ answer : Answer, 500 ≤ answer.status ∧ .released id answer ∈ earlier
  -- A replay is of the answer of the execution that claimed the key.
  | .replayed answer, earlier => ∃ id request claimedAt startedAt,
      lastStart earlier = some (.started id request claimedAt startedAt) ∧ .stored id answer ∈ earlier
  | _, _ => True

def SoundAlong : List Event → Prop
  | [] => True
  | event :: earlier => Sound event earlier ∧ SoundAlong earlier

-- While a record stands no step executes a request, be it the recorded one or another.
def KeyState.Closed (state : KeyState) : Prop :=
  ∀ row, state.row = some row → state.clock < row.expiresAt → ∀ step id request claimedAt startedAt,
    (state.step step).history ≠ .started id request claimedAt startedAt :: state.history

end Statements

section Invariants

-- The record is the one that the execution claimed, and not answered yet.
structure Holds (state : KeyState) (execution : Execution) : Prop where
  last : ∃ startedAt, lastStart state.history =
    some (.started execution.id execution.request execution.claimedAt startedAt)
  row : ∃ row, state.row = some row ∧ row.expiresAt = execution.claimedAt + RETENTION ∧ row.response = none

-- Released, past its retention, or the one the record is of.
def Retained (state : KeyState) (id : ℕ) (request : WriteRequest) (claimedAt startedAt : ℤ) : Prop :=
  (∃ answer : Answer, 500 ≤ answer.status ∧ .released id answer ∈ state.history) ∨
    claimedAt + RETENTION ≤ state.clock ∨
    (lastStart state.history = some (.started id request claimedAt startedAt) ∧
      ∃ row, state.row = some row ∧ row.expiresAt = claimedAt + RETENTION)

structure KeyInvariant (state : KeyState) : Prop where
  claimed : ∀ claim ∈ state.claims, claim.now ≤ state.clock ∧ claim.id < state.next ∧
    ∀ id request claimedAt startedAt, .started id request claimedAt startedAt ∈ state.history → id ≠ claim.id
  started : ∀ id request claimedAt startedAt, .started id request claimedAt startedAt ∈ state.history →
    id < state.next ∧ Retained state id request claimedAt startedAt
  held : ∀ execution ∈ state.executions, state.clock < execution.claimedAt + RETENTION → Holds state execution
  recorded : ∀ row, state.row = some row → ∃ id request claimedAt startedAt,
    lastStart state.history = some (.started id request claimedAt startedAt) ∧
      row.expiresAt = claimedAt + RETENTION ∧
      ∀ answer, row.response = some answer → .stored id answer ∈ state.history
  sound : SoundAlong state.history

variable {state : KeyState}

theorem NewKey.keyInvariant (h : NewKey state) : KeyInvariant state := by
  refine ⟨fun claim hc => ?_, fun id request claimedAt startedAt hs => ?_, fun execution he => ?_,
    fun row hr => ?_, ?_⟩
  · rw [h.claims] at hc
    cases hc
  · rw [h.history] at hs
    cases hs
  · rw [h.executions] at he
    cases he
  · rw [h.row] at hr
    cases hr
  · rw [h.history]
    trivial

-- A step that leaves the record and the history alone.
theorem KeyInvariant.same (h : KeyInvariant state) (later : KeyState) (hrow : later.row = state.row)
    (hhistory : later.history = state.history) (hclock : state.clock ≤ later.clock)
    (hnext : state.next ≤ later.next)
    (hclaims : ∀ claim ∈ later.claims, claim.now ≤ later.clock ∧ claim.id < later.next ∧
      ∀ id request claimedAt startedAt, .started id request claimedAt startedAt ∈ state.history → id ≠ claim.id)
    (hexecutions : ∀ execution ∈ later.executions, ∃ old ∈ state.executions,
      execution.id = old.id ∧ execution.request = old.request ∧ execution.claimedAt = old.claimedAt) :
    KeyInvariant later := by
  refine ⟨fun claim hc => ?_, fun id request claimedAt startedAt hs => ?_, fun execution he hlive => ?_,
    fun row hr => ?_, ?_⟩
  · rw [hhistory]
    exact hclaims claim hc
  · rw [hhistory] at hs
    obtain ⟨hid, hretained⟩ := h.started id request claimedAt startedAt hs
    refine ⟨by omega, ?_⟩
    unfold Retained
    rw [hhistory, hrow]
    rcases hretained with hr | hr | hr
    · exact .inl hr
    · exact .inr (.inl (by omega))
    · exact .inr (.inr hr)
  · obtain ⟨old, ho, hid, hrequest, hclaimed⟩ := hexecutions execution he
    obtain ⟨hlast, row⟩ := h.held old ho (by omega)
    refine ⟨?_, ?_⟩
    · rw [hhistory, hid, hrequest, hclaimed]
      exact hlast
    · rw [hrow, hclaimed]
      exact row
  · rw [hrow] at hr
    rw [hhistory]
    exact h.recorded row hr
  · rw [hhistory]
    exact h.sound

theorem KeyInvariant.dropClaim (h : KeyInvariant state) (id : ℕ) : KeyInvariant (state.dropClaim id) :=
  h.same _ rfl rfl le_rfl le_rfl (fun claim hc => h.claimed claim (List.mem_of_mem_filter hc))
    fun execution he => ⟨execution, he, rfl, rfl, rfl⟩

theorem KeyInvariant.dropExecution (h : KeyInvariant state) (id : ℕ) : KeyInvariant (state.dropExecution id) :=
  h.same _ rfl rfl le_rfl le_rfl h.claimed fun execution he => ⟨execution, List.mem_of_mem_filter he, rfl, rfl, rfl⟩

-- The key is claimed when there is no record or one whose time is over.
theorem KeyInvariant.take (h : KeyInvariant state) (claim : Claim) (hc : claim ∈ state.claims)
    (hover : ∀ row, state.row = some row → row.expiresAt ≤ state.clock) : KeyInvariant (state.take claim) := by
  obtain ⟨hnow, hid, hfresh⟩ := h.claimed claim hc
  -- No earlier execution is the one of a record that still stands.
  have hended : ∀ id request claimedAt startedAt, .started id request claimedAt startedAt ∈ state.history →
      (∃ answer : Answer, 500 ≤ answer.status ∧ .released id answer ∈ state.history) ∨
        claimedAt + RETENTION ≤ state.clock := by
    intro id request claimedAt startedAt hs
    rcases (h.started id request claimedAt startedAt hs).2 with hr | hr | ⟨_, row, hrow, hexpires⟩
    · exact .inl hr
    · exact .inr hr
    · have := hover row hrow
      exact .inr (by omega)
  refine ⟨fun other ho => ?_, fun id request claimedAt startedAt hs => ?_, fun execution he hlive => ?_,
    fun row hr => ?_, ?_⟩
  · have hother := List.mem_filter.mp ho
    obtain ⟨hnow', hid', hfresh'⟩ := h.claimed other hother.1
    refine ⟨hnow', hid', fun id request claimedAt startedAt hs => ?_⟩
    rcases List.mem_cons.mp hs with he | hs
    · cases he
      exact (of_decide_eq_true hother.2).symm
    · exact hfresh' id request claimedAt startedAt hs
  · rcases List.mem_cons.mp hs with he | hs
    · cases he
      exact ⟨hid, .inr (.inr ⟨rfl, newRow claim, rfl, rfl⟩)⟩
    · refine ⟨(h.started id request claimedAt startedAt hs).1, ?_⟩
      rcases hended id request claimedAt startedAt hs with ⟨answer, hstatus, hr⟩ | hr
      · exact .inl ⟨answer, hstatus, List.mem_cons_of_mem _ hr⟩
      · exact .inr (.inl hr)
  · rcases List.mem_cons.mp he with rfl | he
    · exact ⟨⟨state.clock, rfl⟩, newRow claim, rfl, rfl, rfl⟩
    · obtain ⟨row, hrow, hexpires, _⟩ := (h.held execution he hlive).row
      have hle := hover row hrow
      have hlt : state.clock < execution.claimedAt + RETENTION := hlive
      omega
  · cases hr
    refine ⟨claim.id, claim.request, claim.now, state.clock, rfl, rfl, fun answer ha => ?_⟩
    cases ha
  · refine ⟨fun id request claimedAt startedAt hs hlt => ?_, h.sound⟩
    rcases hended id request claimedAt startedAt hs with hr | hr
    · exact hr
    · omega

theorem KeyInvariant.insertClaim (h : KeyInvariant state) (claim : Claim) (hc : claim ∈ state.claims) :
    KeyInvariant (state.insertClaim claim) := by
  unfold KeyState.insertClaim
  split
  · rename_i hrow
    refine h.take claim hc fun row hr => ?_
    rw [hrow] at hr
    cases hr
  · refine h.same _ rfl rfl le_rfl le_rfl (fun other ho => ?_) fun execution he => ⟨execution, he, rfl, rfl, rfl⟩
    rcases List.mem_cons.mp ho with rfl | ho
    · exact h.claimed claim hc
    · exact h.claimed other (List.mem_of_mem_filter ho)

theorem KeyInvariant.selectClaim (h : KeyInvariant state) (claim : Claim) (hc : claim ∈ state.claims) :
    KeyInvariant (state.selectClaim claim) := by
  unfold KeyState.selectClaim
  split
  · exact h.dropClaim claim.id
  · rename_i row hrow
    split_ifs with hexpired
    · refine h.take claim hc fun other ho => ?_
      rw [hrow, Option.some.injEq] at ho
      have hnow := (h.claimed claim hc).1
      rw [← ho]
      omega
    · exact h.dropClaim claim.id
    · exact h.dropClaim claim.id
    · split
      · exact h.dropClaim claim.id
      · rename_i answer hanswer
        have hd := h.dropClaim claim.id
        obtain ⟨id, request, claimedAt, startedAt, hlast, hexpires, hstored⟩ := h.recorded row hrow
        refine ⟨fun other ho => ?_, fun id' request' claimedAt' startedAt' hs => ?_, fun execution he hlive => ?_,
          fun other ho => ?_, ⟨⟨id, request, claimedAt, startedAt, hlast, hstored answer hanswer⟩, h.sound⟩⟩
        · obtain ⟨hnow, hid, hfresh⟩ := hd.claimed other ho
          refine ⟨hnow, hid, fun id' request' claimedAt' startedAt' hs => ?_⟩
          rcases List.mem_cons.mp hs with he | hs
          · cases he
          · exact hfresh id' request' claimedAt' startedAt' hs
        · rcases List.mem_cons.mp hs with he | hs
          · cases he
          · obtain ⟨hid, hretained⟩ := h.started id' request' claimedAt' startedAt' hs
            refine ⟨hid, ?_⟩
            rcases hretained with ⟨other, hstatus, hr⟩ | hr | hr
            · exact .inl ⟨other, hstatus, List.mem_cons_of_mem _ hr⟩
            · exact .inr (.inl hr)
            · exact .inr (.inr hr)
        · obtain ⟨hlast', hrow'⟩ := h.held execution he hlive
          exact ⟨hlast', hrow'⟩
        · obtain ⟨id', request', claimedAt', startedAt', hlast', hexpires', hstored'⟩ := h.recorded other ho
          exact ⟨id', request', claimedAt', startedAt', hlast', hexpires',
            fun answer' ha => List.mem_cons_of_mem _ (hstored' answer' ha)⟩

-- The execution that stores its answer is the one the record is of; no other still runs within its time.
theorem Holds.unique (h : KeyInvariant state) (execution other : Execution) (hh : Holds state execution)
    (ho : other ∈ state.executions) (hlive : state.clock < other.claimedAt + RETENTION) :
    other.id = execution.id := by
  obtain ⟨startedAt, hlast⟩ := hh.last
  obtain ⟨startedAt', hlast'⟩ := (h.held other ho hlive).last
  rw [hlast, Option.some.injEq, Event.started.injEq] at hlast'
  exact hlast'.1.symm

theorem KeyInvariant.release (h : KeyInvariant state) (execution : Execution) (answer : Answer)
    (hh : Holds state execution) (hstatus : 500 ≤ answer.status) :
    KeyInvariant { state.dropExecution execution.id with
      row := none, history := .released execution.id answer :: state.history } := by
  refine ⟨fun claim hc => ?_, fun id request claimedAt startedAt hs => ?_, fun other ho hlive => ?_,
    fun row hr => ?_, ⟨trivial, h.sound⟩⟩
  · obtain ⟨hnow, hid, hfresh⟩ := h.claimed claim hc
    refine ⟨hnow, hid, fun id request claimedAt startedAt hs => ?_⟩
    rcases List.mem_cons.mp hs with he | hs
    · cases he
    · exact hfresh id request claimedAt startedAt hs
  · rcases List.mem_cons.mp hs with he | hs
    · cases he
    · obtain ⟨hid, hretained⟩ := h.started id request claimedAt startedAt hs
      refine ⟨hid, ?_⟩
      rcases hretained with ⟨other, hother, hr⟩ | hr | ⟨hlast, _⟩
      · exact .inl ⟨other, hother, List.mem_cons_of_mem _ hr⟩
      · exact .inr (.inl hr)
      · obtain ⟨startedAt', hlast'⟩ := hh.last
        rw [hlast, Option.some.injEq] at hlast'
        cases hlast'
        exact .inl ⟨answer, hstatus, List.mem_cons_self⟩
  · obtain ⟨ho, hne⟩ := List.mem_filter.mp ho
    exact absurd (Holds.unique h execution other hh ho hlive) (of_decide_eq_true hne)
  · cases hr

theorem KeyInvariant.keep (h : KeyInvariant state) (execution : Execution) (answer : Answer)
    (hh : Holds state execution) :
    KeyInvariant { state.dropExecution execution.id with
      row := state.row.map fun row => { row with complete := true, response := some answer }
      history := .stored execution.id answer :: state.history } := by
  obtain ⟨startedAt, hlast⟩ := hh.last
  refine ⟨fun claim hc => ?_, fun id request claimedAt startedAt' hs => ?_, fun other ho hlive => ?_,
    fun row hr => ?_, ⟨trivial, h.sound⟩⟩
  · obtain ⟨hnow, hid, hfresh⟩ := h.claimed claim hc
    refine ⟨hnow, hid, fun id request claimedAt startedAt' hs => ?_⟩
    rcases List.mem_cons.mp hs with he | hs
    · cases he
    · exact hfresh id request claimedAt startedAt' hs
  · rcases List.mem_cons.mp hs with he | hs
    · cases he
    · obtain ⟨hid, hretained⟩ := h.started id request claimedAt startedAt' hs
      refine ⟨hid, ?_⟩
      rcases hretained with ⟨other, hother, hr⟩ | hr | ⟨hlast', row, hrow, hexpires⟩
      · exact .inl ⟨other, hother, List.mem_cons_of_mem _ hr⟩
      · exact .inr (.inl hr)
      · refine .inr (.inr ⟨hlast', { row with complete := true, response := some answer }, ?_, hexpires⟩)
        change state.row.map _ = _
        rw [hrow]
        rfl
  · obtain ⟨ho, hne⟩ := List.mem_filter.mp ho
    exact absurd (Holds.unique h execution other hh ho hlive) (of_decide_eq_true hne)
  · obtain ⟨old, hold, rfl⟩ := Option.map_eq_some_iff.mp hr
    obtain ⟨id, request, claimedAt, startedAt', hlast', hexpires, _⟩ := h.recorded old hold
    refine ⟨id, request, claimedAt, startedAt', hlast', hexpires, fun other ha => ?_⟩
    rw [hlast, Option.some.injEq] at hlast'
    cases hlast'
    cases ha
    exact List.mem_cons_self

theorem KeyInvariant.storeAnswer (h : KeyInvariant state) (execution : Execution) (answer : Answer)
    (he : execution ∈ state.executions) (hlive : state.clock < execution.claimedAt + RETENTION) :
    KeyInvariant (state.storeAnswer execution answer) := by
  have hh := h.held execution he hlive
  unfold KeyState.storeAnswer
  split_ifs with hstatus
  · exact h.release execution answer hh hstatus
  · exact h.keep execution answer hh

theorem KeyInvariant.prune (h : KeyInvariant state) (now : ℤ) (hnow : now ≤ state.clock) :
    KeyInvariant { state with row := state.row.filter fun row => now < row.expiresAt } := by
  have hkept : ∀ row, state.row = some row → state.clock < row.expiresAt →
      (state.row.filter fun row => now < row.expiresAt) = some row := by
    intro row hrow hlive
    rw [hrow, Option.filter_some, if_pos (decide_eq_true (by omega))]
  refine ⟨h.claimed, fun id request claimedAt startedAt hs => ?_, fun execution he hlive => ?_,
    fun row hr => ?_, h.sound⟩
  · obtain ⟨hid, hretained⟩ := h.started id request claimedAt startedAt hs
    refine ⟨hid, ?_⟩
    rcases hretained with hr | hr | ⟨hlast, row, hrow, hexpires⟩
    · exact .inl hr
    · exact .inr (.inl hr)
    · by_cases hlive : state.clock < row.expiresAt
      · exact .inr (.inr ⟨hlast, row, hkept row hrow hlive, hexpires⟩)
      · refine .inr (.inl ?_)
        change claimedAt + RETENTION ≤ state.clock
        omega
  · obtain ⟨hlast, row, hrow, hexpires, hpending⟩ := h.held execution he hlive
    have hlive' : state.clock < row.expiresAt := by
      rw [hexpires]
      exact hlive
    exact ⟨hlast, row, hkept row hrow hlive', hexpires, hpending⟩
  · obtain ⟨hrow, _⟩ := Option.filter_eq_some_iff.mp hr
    exact h.recorded row hrow

theorem KeyInvariant.step (h : KeyInvariant state) (step : KeyStep) (htimely : TimelyStep state step) :
    KeyInvariant (state.step step) := by
  unfold KeyState.step
  cases step with
  | tick elapsed =>
      refine h.same _ rfl rfl ?_ le_rfl (fun claim hc => ?_) fun execution he => ⟨execution, he, rfl, rfl, rfl⟩
      · change state.clock ≤ state.clock + elapsed
        omega
      · obtain ⟨hnow, hid, hfresh⟩ := h.claimed claim hc
        refine ⟨?_, hid, hfresh⟩
        change claim.now ≤ state.clock + elapsed
        omega
  | begin request =>
      refine h.same _ rfl rfl le_rfl (Nat.le_succ _) (fun claim hc => ?_)
        fun execution he => ⟨execution, he, rfl, rfl, rfl⟩
      rcases List.mem_cons.mp hc with rfl | hc
      · refine ⟨le_rfl, Nat.lt_succ_self _, fun id request' claimedAt startedAt hs => ?_⟩
        have := (h.started id request' claimedAt startedAt hs).1
        change id ≠ state.next
        omega
      · obtain ⟨hnow, hid, hfresh⟩ := h.claimed claim hc
        exact ⟨hnow, Nat.lt_succ_of_lt hid, hfresh⟩
  | insert id =>
      dsimp only
      split
      · exact h
      · rename_i claim hfind
        exact h.insertClaim claim (List.mem_of_find?_eq_some hfind)
  | select id =>
      dsimp only
      split
      · exact h
      · rename_i claim hfind
        exact h.selectClaim claim (List.mem_of_find?_eq_some hfind)
  | finish id answer =>
      refine h.same _ rfl rfl le_rfl le_rfl h.claimed fun execution he => ?_
      obtain ⟨old, ho, rfl⟩ := List.mem_map.mp he
      refine ⟨old, ho, ?_⟩
      split_ifs
      · exact ⟨rfl, rfl, rfl⟩
      · exact ⟨rfl, rfl, rfl⟩
  | store id =>
      dsimp only
      split
      · exact h
      · rename_i execution hfind
        have he := List.mem_of_find?_eq_some hfind
        have hid : execution.id = id := by simpa using List.find?_some hfind
        split
        · exact h
        · exact h.storeAnswer execution _ he (htimely execution he hid)
  | crash id => exact (h.dropClaim id).dropExecution id
  | prune now =>
      dsimp only
      split_ifs with hnow
      · exact h.prune now hnow
      · exact h

theorem KeyInvariant.run (h : KeyInvariant state) (steps : List KeyStep) (htimely : TimelyAlong state steps) :
    KeyInvariant (state.run steps) := by
  induction steps generalizing state with
  | nil => exact h
  | cons step rest ih => exact ih (h.step step htimely.1) htimely.2

end Invariants

section Theorems

variable (state : KeyState)

-- Only a claim starts an execution, and only when there is no record or one whose time is over.
theorem KeyInvariant.closed (h : KeyInvariant state) : state.Closed := by
  intro row hrow hlive step id request claimedAt startedAt hstarted
  have hself : state.history ≠ .started id request claimedAt startedAt :: state.history :=
    fun he => absurd (congrArg List.length he) (by simp)
  unfold KeyState.step at hstarted
  cases step with
  | tick elapsed => exact hself hstarted
  | begin request' => exact hself hstarted
  | insert id' =>
      dsimp only at hstarted
      split at hstarted
      · exact hself hstarted
      · unfold KeyState.insertClaim at hstarted
        rw [hrow] at hstarted
        exact hself hstarted
  | select id' =>
      dsimp only at hstarted
      split at hstarted
      · exact hself hstarted
      · rename_i claim hfind
        have hnow := (h.claimed claim (List.mem_of_find?_eq_some hfind)).1
        unfold KeyState.selectClaim at hstarted
        rw [hrow] at hstarted
        dsimp only at hstarted
        rw [if_neg (by omega)] at hstarted
        split_ifs at hstarted
        · exact hself hstarted
        · exact hself hstarted
        · split at hstarted
          · exact hself hstarted
          · cases hstarted
  | finish id' answer => exact hself hstarted
  | store id' =>
      dsimp only at hstarted
      split at hstarted
      · exact hself hstarted
      · split at hstarted
        · exact hself hstarted
        · unfold KeyState.storeAnswer at hstarted
          split_ifs at hstarted
          · cases hstarted
          · cases hstarted
  | crash id' => exact hself hstarted
  | prune now =>
      dsimp only at hstarted
      split_ifs at hstarted
      · exact hself hstarted
      · exact hself hstarted

-- Whatever the order of the steps and wherever requests die, a key is executed once in its retention time unless it
-- was released, no other request is executed meanwhile, and a replay gives the stored answer.
theorem writes_idempotent (steps : List KeyStep) (hnew : NewKey state) (htimely : TimelyAlong state steps) :
    SoundAlong (state.run steps).history ∧ (state.run steps).Closed := by
  have h := hnew.keyInvariant.run steps htimely
  exact ⟨h.sound, h.closed⟩

end Theorems

section Examples

def newKey : KeyState := ⟨0, none, [], [], 0, []⟩

theorem newKey_new : NewKey newKey := ⟨rfl, rfl, rfl, rfl⟩

def payRequest : WriteRequest := ⟨.completeCheckout, some "c1", "body"⟩

-- A request fails and releases the key; its retry is answered, and a third request gets that answer.
def retried : List KeyStep :=
  [.begin payRequest, .insert 0, .finish 0 ⟨503, "busy"⟩, .store 0, .begin payRequest, .insert 1,
    .begin payRequest, .insert 2, .finish 1 ⟨200, "paid"⟩, .tick 60, .store 1, .select 2]

instance (state : KeyState) (step : KeyStep) : Decidable (TimelyStep state step) :=
  match step with
  | .store _ => inferInstanceAs (Decidable (∀ execution ∈ state.executions, _ → _))
  | .tick _ | .begin _ | .insert _ | .select _ | .finish .. | .crash _ | .prune _ => .isTrue trivial

def decideTimelyAlong (state : KeyState) : (steps : List KeyStep) → Decidable (TimelyAlong state steps)
  | [] => .isTrue trivial
  | step :: rest =>
      have := decideTimelyAlong (state.step step) rest
      inferInstanceAs (Decidable (_ ∧ _))

instance (state : KeyState) (steps : List KeyStep) : Decidable (TimelyAlong state steps) :=
  decideTimelyAlong state steps

theorem writes_idempotent_retried :
    (SoundAlong (newKey.run retried).history ∧ (newKey.run retried).Closed) ∧
      (newKey.run retried).history =
        [.replayed ⟨200, "paid"⟩, .stored 1 ⟨200, "paid"⟩, .started 1 payRequest 0 0, .released 0 ⟨503, "busy"⟩,
          .started 0 payRequest 0 0] :=
  ⟨writes_idempotent newKey retried newKey_new (by decide +kernel), by decide +kernel⟩

end Examples

end AgenticOrg.Commerce.Idempotency
