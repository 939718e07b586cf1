import AgenticOrg.Commerce.HostedRefunds.Bounds

namespace AgenticOrg.Commerce.Hosted

open Tables

section Agreement

variable (order : HostedOrder)

-- A crash left the order behind, or a reconciliation has still to set the status.
def HostedOrder.Repairing (reference : Reference) (phase : Phase) : Prop :=
  reference ∈ order.interrupted ∨
    ∃ check ∈ order.checks, check.item.reference = reference ∧ check.stage = .journalled phase

-- The order has no adjustment and a writer has still to record it.
def HostedOrder.Recording (reference : Reference) : Prop :=
  order.adjustments.find? (.refund reference) = none ∧
    ((∃ check ∈ order.checks, check.item.reference = reference ∧ check.stage = .missing) ∨
      ∃ call ∈ order.calls.rows, call.reference = reference ∧ ∃ amount, call.stage = .recording .completed amount)

def HostedOrder.Kept (reference : Reference) (phase : Phase) : Prop :=
  order.agrees reference phase = true ∨ order.Repairing reference phase ∨
    (phase = .succeeded ∧ order.Recording reference)

-- No outcome in the journal is lost on the order.
def AgreementInvariant : Prop :=
  ∀ reference phase, Phase.final phase → order.Has reference phase → order.Kept reference phase

variable {order}

theorem NewOrder.agreementInvariant (h : NewOrder order) : AgreementInvariant order := by
  rintro reference phase _ ⟨row, hr, _⟩
  rw [h.journal] at hr
  cases hr

theorem agrees_congr (later : HostedOrder) (reference : Reference) (phase : Phase)
    (h : later.adjustments.find? (.refund reference) = order.adjustments.find? (.refund reference)) :
    later.agrees reference phase = order.agrees reference phase := by
  unfold HostedOrder.agrees
  rw [h]

-- Nothing that keeps an outcome went away.
theorem HostedOrder.Kept.mono (later : HostedOrder) (reference : Reference) (phase : Phase)
    (h : order.Kept reference phase)
    (hfind : later.adjustments.find? (.refund reference) = order.adjustments.find? (.refund reference))
    (hinterrupted : reference ∈ order.interrupted → reference ∈ later.interrupted)
    (hchecks : ∀ check ∈ order.checks, check.item.reference = reference →
      (check.stage = .journalled phase ∨ check.stage = .missing) → check ∈ later.checks)
    (hcalls : ∀ call ∈ order.calls.rows, call.reference = reference →
      ∀ amount, call.stage = .recording .completed amount → call ∈ later.calls.rows) :
    later.Kept reference phase := by
  rcases h with hagrees | hrepairing | ⟨hphase, hnone, hwriter⟩
  · exact .inl ((agrees_congr later reference phase hfind).trans hagrees)
  · refine .inr (.inl ?_)
    rcases hrepairing with hi | ⟨check, hc, href, hs⟩
    · exact .inl (hinterrupted hi)
    · exact .inr ⟨check, hchecks check hc href (.inl hs), href, hs⟩
  · refine .inr (.inr ⟨hphase, hfind.trans hnone, ?_⟩)
    rcases hwriter with ⟨check, hc, href, hs⟩ | ⟨call, hc, href, amount, hs⟩
    · exact .inl ⟨check, hchecks check hc href (.inr hs), href, hs⟩
    · exact .inr ⟨call, hcalls call hc href amount hs, href, amount, hs⟩

-- The provider does not both refund and refuse a call.
theorem LedgerInvariant.final_unique (h : LedgerInvariant order) (reference : Reference) (first second : Phase)
    (hf : Phase.final first) (hs : Phase.final second) (hfirst : order.agreesWithProvider reference first = true)
    (hsecond : order.Has reference second) : first = second := by
  obtain ⟨row, hr, rfl, rfl⟩ := hsecond
  have hagrees := (h.rows row hr).2.2.1
  rcases hf with rfl | rfl <;> rcases hs with hs | hs
  · exact hs.symm
  · rw [hs] at hagrees
    obtain ⟨call, hc, hv⟩ := agreesWithProvider_succeeded row.reference hfirst
    obtain ⟨other, ho, hv'⟩ := agreesWithProvider_failed row.reference hagrees
    rw [hc, Option.some.injEq] at ho
    rw [← ho, hv] at hv'
    cases hv'
  · rw [hs] at hagrees
    obtain ⟨call, hc, hv⟩ := agreesWithProvider_failed row.reference hfirst
    obtain ⟨other, ho, hv'⟩ := agreesWithProvider_succeeded row.reference hagrees
    rw [hc, Option.some.injEq] at ho
    rw [← ho, hv] at hv'
    cases hv'
  · exact hs.symm

theorem LedgerInvariant.has_unique (h : LedgerInvariant order) (reference : Reference) (first second : Phase)
    (hf : Phase.final first) (hs : Phase.final second) (hfirst : order.Has reference first)
    (hsecond : order.Has reference second) : first = second := by
  obtain ⟨row, hr, rfl, rfl⟩ := hfirst
  exact h.final_unique row.reference row.phase second hf hs (h.rows row hr).2.2.1 hsecond

end Agreement

section Members

variable {order : HostedOrder}

theorem mem_setCall_of_ne (call other : Call) (stage : CallStage) (ho : other ∈ order.calls.rows)
    (hne : other.number ≠ call.number) : other ∈ (order.setCall call stage).calls.rows :=
  order.calls.mem_modify_of_ne call.number (fun old => { old with stage }) (fun _ => rfl) other ho hne

theorem mem_set_of_ne (checks : List Check) (index : ℕ) (check other later : Check)
    (hget : checks[index]? = some check) (ho : other ∈ checks) (hne : other ≠ check) :
    other ∈ checks.set index later := by
  obtain ⟨before, after, hsplit, hset⟩ := Lists.split_at checks index check hget
  rw [hsplit, List.mem_append, List.mem_cons] at ho
  rw [hset, List.mem_append, List.mem_cons]
  rcases ho with ho | rfl | ho
  · exact .inl ho
  · exact absurd rfl hne
  · exact .inr (.inr ho)

theorem mem_set_self (checks : List Check) (index : ℕ) (check later : Check)
    (hget : checks[index]? = some check) : later ∈ checks.set index later := by
  obtain ⟨before, after, _, hset⟩ := Lists.split_at checks index check hget
  rw [hset]
  exact List.mem_append_right _ List.mem_cons_self

-- A call that is not about to record a completed refund keeps nothing.
theorem HostedOrder.Kept.setCall (reference : Reference) (phase : Phase) (call : Call) (stage : CallStage)
    (h : order.Kept reference phase) (hc : call ∈ order.calls.rows)
    (hstage : call.reference = reference → ∀ amount, call.stage ≠ .recording .completed amount) :
    (order.setCall call stage).Kept reference phase := by
  refine h.mono _ reference phase rfl (fun hi => hi) (fun _ hcheck _ _ => hcheck) ?_
  intro other ho href amount hs
  refine mem_setCall_of_ne call other stage ho fun hn => ?_
  have heq := order.calls.eq_of_key other call ho hc hn
  exact hstage (heq ▸ href) amount (heq ▸ hs)

-- A check that neither has to set the status nor to record the refund keeps nothing.
theorem HostedOrder.Kept.setCheck (reference : Reference) (phase : Phase) (index : ℕ) (check : Check)
    (stage : CheckStage) (h : order.Kept reference phase) (hget : order.checks[index]? = some check)
    (hstage : check.item.reference = reference → check.stage ≠ .journalled phase ∧ check.stage ≠ .missing) :
    (order.setCheck index check stage).Kept reference phase := by
  refine h.mono _ reference phase rfl (fun hi => hi) ?_ (fun _ hcall _ _ _ => hcall)
  intro other ho href hs
  refine mem_set_of_ne order.checks index check other _ hget ho fun he => ?_
  rw [he] at href hs
  rcases hs with hs | hs
  · exact (hstage href).1 hs
  · exact (hstage href).2 hs

-- A row more keeps what was kept, and has to be kept itself when it is an outcome.
theorem AgreementInvariant.journalled (h : AgreementInvariant order) (journal : HostedJournal) (row : HostedRow)
    (hrows : journal.rows = order.journal.rows ++ [row])
    (hkept : Phase.final row.phase → order.Kept row.reference row.phase) :
    AgreementInvariant { order with journal } := by
  rintro reference phase hp ⟨other, ho, rfl, rfl⟩
  have hmem : other ∈ order.journal.rows ∨ other = row := by
    have hj : other ∈ journal.rows := ho
    rwa [hrows, List.mem_append, List.mem_singleton] at hj
  have hkept' : order.Kept other.reference other.phase := by
    rcases hmem with hmem | rfl
    · exact h _ _ hp ⟨other, hmem, rfl, rfl⟩
    · exact hkept hp
  exact hkept'

end Members

section Calls

variable {order : HostedOrder}

theorem AgreementInvariant.setCall (h : AgreementInvariant order) (call : Call) (stage : CallStage)
    (hc : call ∈ order.calls.rows) (hstage : ∀ amount, call.stage ≠ .recording .completed amount) :
    AgreementInvariant (order.setCall call stage) :=
  fun reference phase hp hh => (h reference phase hp hh).setCall reference phase call stage hc fun _ => hstage

theorem find?_applyOrderChange (reference other : Reference) (status : AdjustmentStatus) (amount : ℤ)
    (hne : other ≠ reference) :
    (order.applyOrderChange reference status amount).adjustments.find? (.refund other) =
      order.adjustments.find? (.refund other) := by
  unfold HostedOrder.applyOrderChange
  split
  · rfl
  · rename_i adjustments hi
    rw [Table.find?_of_insert? order.adjustments adjustments _ hi, if_neg]
    intro he
    cases he
    exact hne rfl

theorem applyOrderChange_interrupted (reference other : Reference) (status : AdjustmentStatus) (amount : ℤ)
    (hne : other ≠ reference) (h : other ∈ order.interrupted) :
    other ∈ (order.applyOrderChange reference status amount).interrupted := by
  unfold HostedOrder.applyOrderChange
  split
  · exact h
  · dsimp only
    split_ifs
    · exact List.mem_filter.mpr ⟨h, decide_eq_true hne⟩
    · exact h

theorem applyOrderChange_calls (order : HostedOrder) (reference : Reference) (status : AdjustmentStatus) (amount : ℤ) :
    (order.applyOrderChange reference status amount).calls = order.calls ∧
      (order.applyOrderChange reference status amount).checks = order.checks ∧
      (order.applyOrderChange reference status amount).journal = order.journal := by
  unfold HostedOrder.applyOrderChange
  split <;> exact ⟨rfl, rfl, rfl⟩

-- The order after a change has the adjustment: the one it had, or the new one.
theorem applyOrderChange_cases (order : HostedOrder) (reference : Reference) (status : AdjustmentStatus)
    (amount : ℤ) :
    ((order.adjustments.find? (.refund reference)).isSome = true ∧
        order.applyOrderChange reference status amount = order) ∨
      (order.adjustments.find? (.refund reference) = none ∧
        (order.applyOrderChange reference status amount).adjustments.find? (.refund reference) =
          some (refundAdjustment reference status amount)) := by
  unfold HostedOrder.applyOrderChange
  cases hi : order.adjustments.insert? (refundAdjustment reference status amount) with
  | none =>
      refine .inl ⟨?_, rfl⟩
      by_contra hn
      rw [Option.not_isSome_iff_eq_none] at hn
      obtain ⟨table, hsome, _⟩ := Table.insert?_of_absent order.adjustments
        (refundAdjustment reference status amount) hn
      rw [hi] at hsome
      cases hsome
  | some adjustments =>
      refine .inr ⟨find?_none_of_insert? order.adjustments adjustments _ hi, ?_⟩
      dsimp only
      rw [Table.find?_of_insert? order.adjustments adjustments _ hi]
      exact if_pos rfl

-- The adjustment a writer adds says what the journal does, unless it is pending.
theorem LedgerInvariant.agrees_applied (h : LedgerInvariant order) (reference : Reference)
    (status : AdjustmentStatus) (amount : ℤ) (phase : Phase) (hp : Phase.final phase)
    (hpending : status ≠ .pending) (hstatus : order.Has reference (recordedPhase status))
    (hphase : order.Has reference phase)
    (hfind : (order.applyOrderChange reference status amount).adjustments.find? (.refund reference) =
      some (refundAdjustment reference status amount)) :
    (order.applyOrderChange reference status amount).agrees reference phase = true := by
  have hfinal : Phase.final (recordedPhase status) := by
    cases status with
    | pending => exact absurd rfl hpending
    | completed => exact .inl rfl
    | failed => exact .inr rfl
  have heq := h.has_unique reference _ phase hfinal hp hstatus hphase
  unfold HostedOrder.agrees
  rw [hfind, ← heq]
  cases status with
  | pending => exact absurd rfl hpending
  | completed => rfl
  | failed => rfl

theorem AgreementInvariant.record (h : AgreementInvariant order) (hl : LedgerInvariant order) (call : Call)
    (status : AdjustmentStatus) (amount : ℤ) (hc : call ∈ order.calls.rows)
    (hstage : call.stage = .recording status amount)
    (htimely : status = .pending → (order.adjustments.find? (.refund call.reference)).isSome = true ∨
      order.final call.reference = false ∨ order.checks.any (·.aboutToSet call.reference) = true) :
    AgreementInvariant ((order.applyOrderChange call.reference status amount).setCall call .done) := by
  have hfits := hl.calls call hc
  rw [hstage] at hfits
  obtain ⟨hcalls, hchecks, hjournal⟩ := applyOrderChange_calls order call.reference status amount
  have hmem : call ∈ (order.applyOrderChange call.reference status amount).calls.rows := by rwa [hcalls]
  intro reference phase hp hh
  have hhas : order.Has reference phase := by
    obtain ⟨row, hr, hrest⟩ := hh
    exact ⟨row, hjournal ▸ hr, hrest⟩
  have hkept := h reference phase hp hhas
  by_cases href : reference = call.reference
  · subst href
    rcases applyOrderChange_cases order call.reference status amount with ⟨hsome, hsame⟩ | ⟨hnone, hfind⟩
    · -- the order has an adjustment, so nothing waits for this call
      rw [hsame]
      rcases hkept with hagrees | hrepairing | ⟨_, hn, _⟩
      · exact .inl hagrees
      · exact .inr (.inl hrepairing)
      · rw [hn] at hsome
        cases hsome
    · by_cases hpending : status = .pending
      · have hfinal : order.final call.reference = true := by
          obtain ⟨row, hr, hrow, hphase⟩ := hhas
          refine List.any_eq_true.mpr ⟨row, hr, decide_eq_true ⟨hrow, ?_⟩⟩
          rw [hphase]
          exact hp
        have hset : order.checks.any (·.aboutToSet call.reference) = true := by
          rcases htimely hpending with hsome | hnot | hset
          · rw [hnone] at hsome
            cases hsome
          · rw [hfinal] at hnot
            cases hnot
          · exact hset
        obtain ⟨check, hcheck, habout⟩ := List.any_eq_true.mp hset
        unfold Check.aboutToSet at habout
        rw [decide_eq_true_eq] at habout
        have hjournalled : check.stage = .journalled phase := by
          have hcfits := hl.checks check hcheck
          rw [habout.1] at hcfits
          rcases habout.2 with hs | hs
          · rw [hs] at hcfits ⊢
            rw [hl.has_unique _ _ phase hcfits.1 hp hcfits.2 hhas]
          · rw [hs] at hcfits ⊢
            rw [hl.has_unique _ _ phase hcfits.1 hp hcfits.2 hhas]
        refine .inr (.inl (.inr ⟨check, ?_, habout.1, hjournalled⟩))
        exact hchecks ▸ hcheck
      · exact .inl (hl.agrees_applied call.reference status amount phase hp hpending hfits.2 hhas hfind)
  · have happlied : (order.applyOrderChange call.reference status amount).Kept reference phase := by
      refine hkept.mono _ reference phase (find?_applyOrderChange _ _ _ _ href)
        (applyOrderChange_interrupted _ _ _ _ href) ?_ ?_
      · exact fun check hcheck _ _ => hchecks ▸ hcheck
      · exact fun other ho _ _ _ => hcalls ▸ ho
    exact happlied.setCall reference phase call .done hmem fun he => absurd he.symm href

-- While a call is in flight with an answer that is not journalled, the order has no adjustment of it.
theorem LedgerInvariant.no_adjustment (h : LedgerInvariant order) (call : Call) (phase : Phase)
    (journal : HostedJournal) (now : ℤ) (hc : call ∈ order.calls.rows) (hstage : call.stage = .answered phase)
    (hp : Phase.final phase)
    (hi : order.journal.insert? (hostedRow (order.record call) phase order.providerOrderRef now) = some journal) :
    order.adjustments.find? (.refund call.reference) = none := by
  have hfits := h.calls call hc
  rw [hstage] at hfits
  obtain ⟨hunknown, _⟩ := h.flight call hc (by rw [hstage]; rfl)
  by_contra hsome
  obtain ⟨adjustment, hf⟩ := Option.ne_none_iff_exists'.mp hsome
  obtain ⟨ha, hid⟩ := order.adjustments.mem_of_find? _ adjustment hf
  obtain ⟨amount, _, hrecorded, _⟩ := h.adjustments adjustment ha call.reference hid
  have hfinal : Phase.final (recordedPhase adjustment.status) := by
    cases hstatus : adjustment.status with
    | pending =>
        rw [hstatus] at hrecorded
        exact absurd hrecorded hunknown
    | completed => exact .inl rfl
    | failed => exact .inr rfl
  have heq := h.final_unique call.reference phase _ hp hfinal hfits.2.2 hrecorded
  rw [← heq] at hrecorded
  obtain ⟨row, hr, href, hphase⟩ := hrecorded
  refine (Table.rows_insert? order.journal journal _ hi).2 row hr ?_
  exact Prod.ext href (Prod.ext (h.rows row hr).1 hphase)

theorem agrees_of_absent (order : HostedOrder) (reference : Reference) (phase : Phase)
    (h : order.adjustments.find? (.refund reference) = none) (hp : phase ≠ .succeeded) :
    order.agrees reference phase = true := by
  rw [HostedOrder.agrees, h]
  exact decide_eq_true hp

theorem AgreementInvariant.finish (h : AgreementInvariant order) (hl : LedgerInvariant order) (call : Call)
    (phase : Phase) (journal : HostedJournal) (now : ℤ) (hc : call ∈ order.calls.rows)
    (hstage : call.stage = .answered phase)
    (hi : order.journal.insert? (hostedRow (order.record call) phase order.providerOrderRef now) = some journal) :
    AgreementInvariant ({ order with journal }.setCall call (answeredStage phase call.amount)) := by
  obtain ⟨hrows, _⟩ := Table.rows_insert? order.journal journal _ hi
  have hset : AgreementInvariant (order.setCall call (answeredStage phase call.amount)) :=
    h.setCall call _ hc fun amount hs => by rw [hstage] at hs; cases hs
  refine hset.journalled journal _ hrows fun hp => ?_
  have hnone := hl.no_adjustment call phase journal now hc hstage hp hi
  rcases hp with hp | hp
  · have hphase : phase = .succeeded := hp
    subst hphase
    refine .inr (.inr ⟨rfl, hnone, .inr ⟨_, mem_setCall_self call _ hc, rfl, call.amount, rfl⟩⟩)
  · have hphase : phase = .failed := hp
    subst hphase
    exact .inl (agrees_of_absent _ call.reference .failed hnone (by decide))

theorem AgreementInvariant.advance (h : AgreementInvariant order) (hl : LedgerInvariant order) (call : Call)
    (given : Given) (hc : call ∈ order.calls.rows)
    (htimely : call.stage.recordsPending = true → (order.adjustments.find? (.refund call.reference)).isSome = true ∨
      order.final call.reference = false ∨ order.checks.any (·.aboutToSet call.reference) = true) :
    AgreementInvariant (order.advance call given) := by
  unfold HostedOrder.advance
  split
  next hstage => exact h.setCall call _ hc fun amount hs => by rw [hstage] at hs; cases hs
  next hstage => exact h.setCall call _ hc fun amount hs => by rw [hstage] at hs; cases hs
  next status amount hstage =>
    refine h.record hl call status amount hc hstage fun hpending => htimely ?_
    rw [hstage, hpending]
    rfl
  next hstage =>
    have hset := fun stage => h.setCall call stage hc fun amount hs => by rw [hstage] at hs; cases hs
    split_ifs
    · exact hset _
    · exact hset _
  next hstage => exact h.setCall call _ hc fun amount hs => by rw [hstage] at hs; cases hs
  next hstage =>
    have hset := fun stage => h.setCall call stage hc fun amount hs => by rw [hstage] at hs; cases hs
    unfold HostedOrder.begin
    split_ifs
    · exact hset _
    · exact hset _
    · split
      · exact hset _
      · rename_i journal hi
        refine (hset .begun).journalled journal _ (Table.rows_insert? order.journal journal _ hi).1 fun hp => ?_
        rcases hp with hp | hp
        · cases hp
        · cases hp
  next hstage => exact h.setCall call .sent hc fun amount hs => by rw [hstage] at hs; cases hs
  next hstage =>
    split_ifs
    · exact h.setCall call _ hc fun amount hs => by rw [hstage] at hs; cases hs
    · exact h
  next phase hstage =>
    split
    · exact h.setCall call _ hc fun amount hs => by rw [hstage] at hs; cases hs
    · rename_i journal hi
      exact h.finish hl call phase journal given.now hc hstage hi
  next => exact h

-- After a crash the order agrees with the outcome, or the call is on the list of interrupted ones.
theorem interrupt_cases (order : HostedOrder) (reference : Reference) (phase : Phase) :
    (order.interrupt reference phase).agrees reference phase = true ∨
      reference ∈ (order.interrupt reference phase).interrupted := by
  unfold HostedOrder.interrupt
  split_ifs with hagrees
  · exact .inl hagrees
  · exact .inr List.mem_cons_self

theorem HostedOrder.Kept.interrupt (reference interrupted : Reference) (phase crashed : Phase)
    (h : order.Kept reference phase) : (order.interrupt interrupted crashed).Kept reference phase := by
  unfold HostedOrder.interrupt
  split_ifs
  · exact h
  · exact h.mono _ reference phase rfl (fun hi => List.mem_cons_of_mem _ hi) (fun _ hcheck _ _ => hcheck)
      (fun _ hcall _ _ _ => hcall)

theorem AgreementInvariant.crash (h : AgreementInvariant order) (hl : LedgerInvariant order) (call : Call)
    (hc : call ∈ order.calls.rows) : AgreementInvariant (order.crash call) := by
  have hfits := hl.calls call hc
  unfold HostedOrder.crash
  split
  next amount hstage =>
    rw [hstage] at hfits
    have hjournal := interrupt_journal order call.reference .succeeded
    have hmem : call ∈ (order.interrupt call.reference .succeeded).calls.rows := by
      unfold HostedOrder.interrupt
      split_ifs <;> exact hc
    intro reference phase hp hh
    have hhas : order.Has reference phase := by
      obtain ⟨row, hr, hrest⟩ := hh
      exact ⟨row, hjournal ▸ hr, hrest⟩
    by_cases href : reference = call.reference
    · subst href
      have hphase : Phase.succeeded = phase := hl.has_unique _ _ phase (.inl rfl) hp hfits.2 hhas
      subst hphase
      rcases interrupt_cases order call.reference .succeeded with hagrees | hinterrupted
      · exact .inl hagrees
      · exact .inr (.inl (.inl hinterrupted))
    · exact ((h reference phase hp hhas).interrupt reference _ phase _).setCall reference phase call .done hmem
        fun he => absurd he.symm href
  next hother =>
    exact h.setCall call .done hc fun amount hs => hother amount hs

end Calls

section Checks

variable {order : HostedOrder}

theorem AgreementInvariant.setCheck (h : AgreementInvariant order) (index : ℕ) (check : Check) (stage : CheckStage)
    (hget : order.checks[index]? = some check) (hstage : ∀ phase, check.stage ≠ .journalled phase)
    (hmissing : check.stage ≠ .missing) : AgreementInvariant (order.setCheck index check stage) :=
  fun reference phase hp hh =>
    (h reference phase hp hh).setCheck reference phase index check stage hget fun _ => ⟨hstage phase, hmissing⟩

theorem AgreementInvariant.tell (h : AgreementInvariant order) (index : ℕ) (check : Check) (phase : Phase) (now : ℤ)
    (hget : order.checks[index]? = some check) (hstage : check.stage = .told phase) :
    AgreementInvariant ((order.recordOnce check.item phase now).setCheck index check (.journalled phase)) := by
  have hset : AgreementInvariant (order.setCheck index check (.journalled phase)) := by
    refine h.setCheck index check _ hget ?_ ?_
    · exact fun other hs => by rw [hstage] at hs; cases hs
    · exact fun hs => by rw [hstage] at hs; cases hs
  have hkept : (order.setCheck index check (.journalled phase)).Kept check.item.reference phase :=
    .inr (.inl (.inr ⟨_, mem_set_self order.checks index check _ hget, rfl, rfl⟩))
  unfold HostedOrder.recordOnce
  cases hi : order.journal.insert? (hostedRow check.item.record phase order.providerOrderRef now) with
  | none => exact hset
  | some journal =>
      exact hset.journalled journal _ (Table.rows_insert? order.journal journal _ hi).1 fun _ => hkept

theorem setOrderAdjustmentStatus_some (later : HostedOrder) (reference : Reference) (status : AdjustmentStatus)
    (h : order.setOrderAdjustmentStatus reference status = some later) :
    later.calls = order.calls ∧ later.checks = order.checks ∧ later.journal = order.journal ∧
      (∃ adjustment, later.adjustments.find? (.refund reference) = some adjustment ∧ adjustment.status = status) ∧
      ∀ other, other ≠ reference →
        later.adjustments.find? (.refund other) = order.adjustments.find? (.refund other) ∧
          (other ∈ order.interrupted → other ∈ later.interrupted) := by
  unfold HostedOrder.setOrderAdjustmentStatus at h
  split at h
  · cases h
  · rename_i adjustment hf
    split_ifs at h
    cases h
    refine ⟨rfl, rfl, rfl, ⟨{ adjustment with status }, ?_, rfl⟩, fun other hne => ⟨?_, fun hi => ?_⟩⟩
    · rw [Table.find?_modify, if_pos rfl, hf]
      rfl
    · rw [Table.find?_modify, if_neg]
      intro he
      cases he
      exact hne rfl
    · exact List.mem_filter.mpr ⟨hi, decide_eq_true hne⟩

theorem setOrderAdjustmentStatus_none (reference : Reference) (status : AdjustmentStatus)
    (h : order.setOrderAdjustmentStatus reference status = none) :
    order.adjustments.find? (.refund reference) = none ∨
      ∃ adjustment, order.adjustments.find? (.refund reference) = some adjustment ∧ adjustment.status = status := by
  unfold HostedOrder.setOrderAdjustmentStatus at h
  split at h
  · rename_i hnone
    exact .inl hnone
  · rename_i adjustment hf
    split_ifs at h with hs
    exact .inr ⟨adjustment, hf, hs⟩

theorem agrees_of_status (reference : Reference) (phase : Phase) (adjustment : Adjustment)
    (hf : order.adjustments.find? (.refund reference) = some adjustment)
    (hs : adjustment.status = reconciledStatus phase) : order.agrees reference phase = true := by
  unfold HostedOrder.agrees
  rw [hf]
  exact decide_eq_true hs

theorem AgreementInvariant.settle (h : AgreementInvariant order) (hl : LedgerInvariant order) (index : ℕ)
    (check : Check) (phase : Phase) (hget : order.checks[index]? = some check)
    (hstage : check.stage = .journalled phase) (given : Given) :
    AgreementInvariant (order.check index check given) := by
  have hfits := hl.checks check (List.mem_of_getElem? hget)
  rw [hstage] at hfits
  unfold HostedOrder.check
  rw [hstage]
  dsimp only
  cases hs : order.setOrderAdjustmentStatus check.item.reference (reconciledStatus phase) with
  | some later =>
      obtain ⟨hcalls, hchecks, hjournal, ⟨adjustment, hf, hstatus⟩, hothers⟩ :=
        setOrderAdjustmentStatus_some later _ _ hs
      intro reference other hp hh
      have hhas : order.Has reference other := by
        obtain ⟨row, hr, hrest⟩ := hh
        exact ⟨row, hjournal ▸ hr, hrest⟩
      by_cases href : reference = check.item.reference
      · subst href
        have hphase : phase = other := hl.has_unique _ _ other hfits.1 hp hfits.2 hhas
        subst hphase
        exact .inl (agrees_of_status check.item.reference phase adjustment hf hstatus)
      · have hlater : later.Kept reference other := by
          refine (h reference other hp hhas).mono later reference other (hothers reference href).1
            (hothers reference href).2 ?_ ?_
          · exact fun _ hc _ _ => hchecks ▸ hc
          · exact fun _ hc _ _ _ => hcalls ▸ hc
        refine hlater.setCheck reference other index check .done (hchecks ▸ hget) fun he => absurd he.symm href
  | none =>
      intro reference other hp hh
      by_cases href : reference = check.item.reference
      · subst href
        have hphase : phase = other := hl.has_unique _ _ other hfits.1 hp hfits.2 hh
        subst hphase
        rcases setOrderAdjustmentStatus_none _ _ hs with hnone | ⟨adjustment, hf, hstatus⟩
        · rcases hp with rfl | rfl
          · exact .inr (.inr ⟨rfl, hnone, .inl ⟨_, mem_set_self order.checks index check _ hget, rfl, rfl⟩⟩)
          · refine .inl ?_
            have hagrees : order.agrees check.item.reference .failed = true := by
              unfold HostedOrder.agrees
              rw [hnone]
              rfl
            exact hagrees
        · exact .inl (agrees_of_status check.item.reference phase adjustment hf hstatus)
      · exact (h reference other hp hh).setCheck reference other index check _ hget fun he => absurd he.symm href

theorem AgreementInvariant.recordMissing (h : AgreementInvariant order) (hl : LedgerInvariant order) (index : ℕ)
    (check : Check) (hget : order.checks[index]? = some check) (hstage : check.stage = .missing) :
    AgreementInvariant
      ((order.applyOrderChange check.item.reference .completed check.item.amount).setCheck index check .done) := by
  have hfits := hl.checks check (List.mem_of_getElem? hget)
  rw [hstage] at hfits
  obtain ⟨hcalls, hchecks, hjournal⟩ :=
    applyOrderChange_calls order check.item.reference .completed check.item.amount
  intro reference phase hp hh
  have hhas : order.Has reference phase := by
    obtain ⟨row, hr, hrest⟩ := hh
    exact ⟨row, hjournal ▸ hr, hrest⟩
  have hkept := h reference phase hp hhas
  by_cases href : reference = check.item.reference
  · subst href
    rcases applyOrderChange_cases order check.item.reference .completed check.item.amount with
      ⟨hsome, hsame⟩ | ⟨_, hfind⟩
    · rw [hsame]
      rcases hkept with hagrees | hinterrupted | ⟨_, hn, _⟩
      · exact .inl hagrees
      · refine .inr (.inl ?_)
        rcases hinterrupted with hi | ⟨other, ho, hor, hs⟩
        · exact .inl hi
        · refine .inr ⟨other, mem_set_of_ne order.checks index check other _ hget ho ?_, hor, hs⟩
          intro he
          rw [he, hstage] at hs
          cases hs
      · rw [hn] at hsome
        cases hsome
    · exact .inl (hl.agrees_applied _ .completed _ phase hp (by decide) hfits hhas hfind)
  · have happlied : (order.applyOrderChange check.item.reference .completed check.item.amount).Kept
        reference phase := by
      refine hkept.mono _ reference phase (find?_applyOrderChange _ _ _ _ href)
        (applyOrderChange_interrupted _ _ _ _ href) ?_ ?_
      · exact fun _ hc _ _ => hchecks ▸ hc
      · exact fun _ hc _ _ _ => hcalls ▸ hc
    exact happlied.setCheck reference phase index check .done (hchecks ▸ hget) fun he => absurd he.symm href

theorem AgreementInvariant.check (h : AgreementInvariant order) (hl : LedgerInvariant order) (index : ℕ)
    (check : Check) (given : Given) (hget : order.checks[index]? = some check) :
    AgreementInvariant (order.check index check given) := by
  cases hstage : check.stage with
  | selected =>
      have hset := fun stage => h.setCheck index check stage hget
        (fun phase hs => by rw [hstage] at hs; cases hs) (fun hs => by rw [hstage] at hs; cases hs)
      unfold HostedOrder.check
      rw [hstage]
      dsimp only
      split
      · exact hset _
      · split_ifs
        · exact hset _
        · exact h
  | told phase =>
      unfold HostedOrder.check
      rw [hstage]
      exact h.tell index check phase given.now hget hstage
  | journalled phase => exact h.settle hl index check phase hget hstage given
  | missing =>
      unfold HostedOrder.check
      rw [hstage]
      exact h.recordMissing hl index check hget hstage
  | done =>
      unfold HostedOrder.check
      rw [hstage]
      exact h

-- The outcome that a check has journalled and the order has not.
theorem AgreementInvariant.interrupted (h : AgreementInvariant order) (hl : LedgerInvariant order) (index : ℕ)
    (check : Check) (phase : Phase) (hget : order.checks[index]? = some check) (hp : Phase.final phase)
    (hhas : order.Has check.item.reference phase) :
    AgreementInvariant ((order.interrupt check.item.reference phase).setCheck index check .done) := by
  have hjournal := interrupt_journal order check.item.reference phase
  have hchecks : (order.interrupt check.item.reference phase).checks = order.checks := by
    unfold HostedOrder.interrupt
    split_ifs <;> rfl
  intro reference other ho hh
  have hhas' : order.Has reference other := by
    obtain ⟨row, hr, hrest⟩ := hh
    exact ⟨row, hjournal ▸ hr, hrest⟩
  by_cases href : reference = check.item.reference
  · subst href
    have hphase : phase = other := hl.has_unique _ _ other hp ho hhas hhas'
    subst hphase
    rcases interrupt_cases order check.item.reference phase with hagrees | hinterrupted
    · exact .inl hagrees
    · exact .inr (.inl (.inl hinterrupted))
  · exact ((h reference other ho hhas').interrupt reference _ other _).setCheck reference other index check .done
      (hchecks ▸ hget) fun he => absurd he.symm href

theorem AgreementInvariant.crashCheck (h : AgreementInvariant order) (hl : LedgerInvariant order) (index : ℕ)
    (check : Check) (hget : order.checks[index]? = some check) : AgreementInvariant (order.crashCheck index check) := by
  have hfits := hl.checks check (List.mem_of_getElem? hget)
  unfold HostedOrder.crashCheck
  split
  next phase hstage =>
    rw [hstage] at hfits
    exact h.interrupted hl index check phase hget hfits.1 hfits.2
  next hstage =>
    rw [hstage] at hfits
    exact h.interrupted hl index check .succeeded hget (.inl rfl) hfits
  next hjournalled hmissing => exact h.setCheck index check .done hget hjournalled hmissing

end Checks

section Runs

variable {order : HostedOrder}

theorem AgreementInvariant.step (h : AgreementInvariant order) (hl : LedgerInvariant order) (step : HostedStep)
    (ht : step.Timely order) : AgreementInvariant (order.step step) := by
  cases step with
  | request number requestKey repeatable decisionId amount =>
      unfold HostedOrder.step
      dsimp only
      by_cases hamount : amount < 1
      · rw [if_pos hamount]
        exact h
      · rw [if_neg hamount]
        cases hi : order.calls.insert?
            { number, requestKey, decisionId, amount, stage := if repeatable then .lookup false else .deciding } with
        | none => exact h
        | some calls =>
            intro reference phase hp hh
            refine (h reference phase hp hh).mono _ reference phase rfl (fun hi => hi) (fun _ hc _ _ => hc) ?_
            intro call hc _ _ _
            dsimp only [Option.getD_some]
            rw [(Table.rows_insert? order.calls calls _ hi).1]
            exact List.mem_append_left _ hc
  | advance number given =>
      unfold HostedOrder.step
      dsimp only
      split
      · rename_i call hf
        exact h.advance hl call given (order.calls.mem_of_find? number call hf).1 (ht call hf)
      · exact h
  | crash number =>
      unfold HostedOrder.step
      dsimp only
      split
      · rename_i call hf
        exact h.crash hl call (order.calls.mem_of_find? number call hf).1
      · exact h
  | decideVerdict reference refunded => exact h
  | select now =>
      intro reference phase hp hh
      refine (h reference phase hp hh).mono _ reference phase rfl (fun hi => hi) ?_ (fun _ hc _ _ _ => hc)
      exact fun check hc _ _ => List.mem_append_left _ hc
  | check index given =>
      unfold HostedOrder.step
      dsimp only
      split
      · rename_i check hget
        exact h.check hl index check given hget
      · exact h
  | crashCheck index =>
      unfold HostedOrder.step
      dsimp only
      split
      · rename_i check hget
        exact h.crashCheck hl index check hget
      · exact h
  | adjust number type status totals =>
      unfold HostedOrder.step
      dsimp only
      split_ifs
      · exact h
      · cases hi : order.adjustments.insert? ⟨.recorded number, type, status, totals⟩ with
        | none => exact h
        | some adjustments =>
            intro reference phase hp hh
            refine (h reference phase hp hh).mono _ reference phase ?_ (fun hi => hi) (fun _ hc _ _ => hc)
              (fun _ hc _ _ _ => hc)
            dsimp only [Option.getD_some]
            rw [Table.find?_of_insert? order.adjustments adjustments _ hi, if_neg]
            exact fun he => AdjustmentId.noConfusion he

theorem AgreementInvariant.run (steps : List HostedStep) (h : AgreementInvariant order) (hl : LedgerInvariant order)
    (ht : TimelyAlong order steps) : AgreementInvariant (order.run steps) := by
  induction steps generalizing order with
  | nil => exact h
  | cons step rest ih => exact ih (h.step hl step ht.1) (hl.step step) ht.2

-- Nothing is under way that still writes to the order.
structure Resting (order : HostedOrder) : Prop where
  calls : ∀ call ∈ order.calls.rows, call.stage = .done
  checks : ∀ check ∈ order.checks, check.stage = .selected ∨ check.stage = .done
  interrupted : order.interrupted = []

theorem adjustmentsOf_some (reference : Reference) (adjustment : Adjustment)
    (h : order.adjustments.find? (.refund reference) = some adjustment) :
    order.adjustmentsOf reference = [adjustment] := by
  obtain ⟨hmem, hid⟩ := order.adjustments.mem_of_find? _ adjustment h
  have hle := order.adjustments.length_filter_le_one (fun row => row.id = .refund reference) fun a _ b _ ha hb => by
    rw [decide_eq_true_eq] at ha hb
    exact ha.trans hb.symm
  have hin : adjustment ∈ order.adjustmentsOf reference := List.mem_filter.mpr ⟨hmem, decide_eq_true hid⟩
  unfold HostedOrder.adjustmentsOf at hin ⊢
  match hrows : order.adjustments.rows.filter (·.id = .refund reference) with
  | [] =>
      rw [hrows] at hin
      cases hin
  | [only] =>
      rw [hrows, List.mem_singleton] at hin
      rw [hin]
      exact hrows
  | first :: second :: rest =>
      rw [hrows] at hle
      simp at hle

theorem adjustmentsOf_none (reference : Reference) (h : order.adjustments.find? (.refund reference) = none) :
    order.adjustmentsOf reference = [] := by
  rw [Table.find?_eq_none_iff] at h
  rw [HostedOrder.adjustmentsOf, List.filter_eq_nil_iff]
  intro row hr
  rw [decide_eq_true_eq]
  exact h row hr

theorem settled_of_resting (h : AgreementInvariant order) (hl : LedgerInvariant order) (hr : Resting order) :
    Settled order := by
  have hagrees : ∀ reference phase, Phase.final phase → order.Has reference phase →
      order.agrees reference phase = true := by
    intro reference phase hp hh
    rcases h reference phase hp hh with hagrees | (hi | ⟨check, hc, _, hs⟩) | ⟨_, _, ⟨check, hc, _, hs⟩ | hcall⟩
    · exact hagrees
    · rw [hr.interrupted] at hi
      cases hi
    · rcases hr.checks check hc with hd | hd <;> rw [hd] at hs <;> cases hs
    · rcases hr.checks check hc with hd | hd <;> rw [hd] at hs <;> cases hs
    · obtain ⟨call, hc, _, amount, hs⟩ := hcall
      rw [hr.calls call hc] at hs
      cases hs
  constructor
  · intro row hrow hphase
    have hagree := hagrees row.reference .succeeded (.inl rfl) ⟨row, hrow, rfl, hphase⟩
    unfold HostedOrder.agrees at hagree
    split at hagree
    · rename_i adjustment hf
      rw [decide_eq_true_eq] at hagree
      obtain ⟨hmem, hid⟩ := order.adjustments.mem_of_find? _ adjustment hf
      obtain ⟨amount, hrequested, _, he⟩ := hl.adjustments adjustment hmem row.reference hid
      rw [adjustmentsOf_some row.reference adjustment hf, hl.requestedAmount row.reference amount hrequested, he,
        hagree]
      rfl
    · cases hagree
  · intro row hrow hphase
    have hagree := hagrees row.reference .failed (.inr rfl) ⟨row, hrow, rfl, hphase⟩
    unfold HostedOrder.agrees at hagree
    split at hagree
    · rename_i adjustment hf
      rw [decide_eq_true_eq] at hagree
      exact .inr ⟨adjustment, adjustmentsOf_some row.reference adjustment hf, hagree⟩
    · rename_i hnone
      exact .inl (adjustmentsOf_none row.reference hnone)

end Runs

section Passes

variable {order : HostedOrder}

-- How many steps a check needs once it has been told an outcome.
def CheckStage.left : CheckStage → ℕ
  | .told _ => 3
  | .journalled _ => 2
  | .missing => 1
  | .selected => 0
  | .done => 0

-- The stage a check goes on to.
def HostedOrder.nextStage (order : HostedOrder) (check : Check) (given : Given) : CheckStage :=
  match check.stage with
  | .selected =>
      match order.readRefund check.item given with
      | none => .done
      | some phase => if order.agreesWithProvider check.item.reference phase then .told phase else .selected
  | .told phase => .journalled phase
  | .journalled phase =>
      match order.setOrderAdjustmentStatus check.item.reference (reconciledStatus phase) with
      | some _ => .done
      | none => if phase = .succeeded then .missing else .done
  | .missing => .done
  | .done => .done

theorem set_same (checks : List Check) (index : ℕ) (check : Check) (stage : CheckStage)
    (hget : checks[index]? = some check) (hs : check.stage = stage) : checks.set index { check with stage } = checks := by
  obtain ⟨before, after, hsplit, hset⟩ := Lists.split_at checks index check hget
  rw [hset, ← hs]
  exact hsplit.symm

-- A check's step changes its own stage and no request, and interrupts nothing.
theorem check_effects (index : ℕ) (check : Check) (given : Given) (hget : order.checks[index]? = some check) :
    (order.check index check given).checks =
        order.checks.set index { check with stage := order.nextStage check given } ∧
      (order.check index check given).calls = order.calls ∧
      (order.interrupted = [] → (order.check index check given).interrupted = []) := by
  unfold HostedOrder.check HostedOrder.nextStage
  cases hstage : check.stage with
  | selected =>
      dsimp only
      cases order.readRefund check.item given with
      | none => exact ⟨rfl, rfl, fun hi => hi⟩
      | some phase =>
          dsimp only
          split_ifs
          · exact ⟨rfl, rfl, fun hi => hi⟩
          · exact ⟨(set_same order.checks index check .selected hget hstage).symm, rfl, fun hi => hi⟩
  | told phase => exact ⟨rfl, rfl, fun hi => hi⟩
  | journalled phase =>
      dsimp only
      cases hs : order.setOrderAdjustmentStatus check.item.reference (reconciledStatus phase) with
      | none => exact ⟨rfl, rfl, fun hi => hi⟩
      | some later =>
          unfold HostedOrder.setOrderAdjustmentStatus at hs
          split at hs
          · cases hs
          · split_ifs at hs
            cases hs
            refine ⟨rfl, rfl, fun hi => ?_⟩
            change order.interrupted.filter _ = []
            rw [hi, List.filter_nil]
  | missing =>
      dsimp only
      unfold HostedOrder.applyOrderChange
      split
      · exact ⟨rfl, rfl, fun hi => hi⟩
      · refine ⟨rfl, rfl, fun hi => ?_⟩
        change order.interrupted.filter _ = []
        rw [hi, List.filter_nil]
  | done => exact ⟨(set_same order.checks index check .done hget hstage).symm, rfl, fun hi => hi⟩

theorem nextStage_left (order : HostedOrder) (check : Check) (given : Given) (h : check.stage ≠ .selected) :
    order.nextStage check given ≠ .selected ∧ (order.nextStage check given).left ≤ check.stage.left - 1 := by
  unfold HostedOrder.nextStage
  cases hstage : check.stage with
  | selected => exact absurd hstage h
  | told phase => exact ⟨fun hs => CheckStage.noConfusion hs, Nat.le_refl 2⟩
  | journalled phase =>
      dsimp only
      split
      · exact ⟨fun hs => CheckStage.noConfusion hs, Nat.zero_le _⟩
      · split_ifs
        · exact ⟨fun hs => CheckStage.noConfusion hs, Nat.le_refl 1⟩
        · exact ⟨fun hs => CheckStage.noConfusion hs, Nat.zero_le _⟩
  | missing => exact ⟨fun hs => CheckStage.noConfusion hs, Nat.zero_le _⟩
  | done => exact ⟨fun hs => CheckStage.noConfusion hs, Nat.zero_le _⟩

theorem step_check (index : ℕ) (check : Check) (given : Given) (hget : order.checks[index]? = some check) :
    order.step (.check index given) = order.check index check given := by
  unfold HostedOrder.step
  dsimp only
  rw [hget]

-- A check that was told an outcome comes to its end.
theorem told_ends (n index : ℕ) (check : Check) (given : Given) (hget : order.checks[index]? = some check)
    (hs : check.stage ≠ .selected) (hleft : check.stage.left ≤ n) :
    (order.run (List.replicate n (.check index given))).checks = order.checks.set index { check with stage := .done } ∧
      (order.run (List.replicate n (.check index given))).calls = order.calls ∧
      (order.interrupted = [] → (order.run (List.replicate n (.check index given))).interrupted = []) := by
  induction n generalizing order check with
  | zero =>
      have hdone : check.stage = .done := by
        cases hstage : check.stage with
        | selected => exact absurd hstage hs
        | told | journalled | missing =>
            rw [hstage, CheckStage.left] at hleft
            omega
        | done => rfl
      exact ⟨(set_same order.checks index check .done hget hdone).symm, rfl, fun hi => hi⟩
  | succ n ih =>
      obtain ⟨hchecks, hcalls, hinterrupted⟩ := check_effects index check given hget
      obtain ⟨hnext, hless⟩ := nextStage_left order check given hs
      have hlater : (order.check index check given).checks[index]? =
          some { check with stage := order.nextStage check given } := by
        rw [hchecks, List.getElem?_set_self (List.getElem?_eq_some_iff.mp hget).1]
      obtain ⟨hchecks', hcalls', hinterrupted'⟩ := ih _ hlater hnext (by dsimp only; omega)
      rw [List.replicate_succ]
      change ((order.step (.check index given)).run _).checks = _ ∧ ((order.step (.check index given)).run _).calls = _ ∧
        (_ → ((order.step (.check index given)).run _).interrupted = _)
      rw [step_check index check given hget]
      refine ⟨?_, hcalls'.trans hcalls, fun hi => hinterrupted' (hinterrupted hi)⟩
      rw [hchecks', hchecks, List.set_set]

theorem run_replicate_same (n : ℕ) (step : HostedStep) (h : order.step step = order) :
    order.run (List.replicate n step) = order := by
  induction n with
  | zero => rfl
  | succ n ih =>
      rw [List.replicate_succ]
      change (order.step step).run _ = order
      rw [h]
      exact ih

-- Four steps bring a check to its end, unless the provider gives no answer that it can read.
theorem Resting.block (h : Resting order) (index : ℕ) (given : Given) :
    Resting (order.run (List.replicate 4 (.check index given))) := by
  cases hget : order.checks[index]? with
  | none =>
      have hsame : order.step (.check index given) = order := by
        unfold HostedOrder.step
        dsimp only
        rw [hget]
      rw [run_replicate_same 4 _ hsame]
      exact h
  | some check =>
      have hstep := step_check index check given hget
      by_cases hsame : order.check index check given = order
      · rw [run_replicate_same 4 _ (hstep.trans hsame)]
        exact h
      · obtain ⟨hchecks, hcalls, hinterrupted⟩ := check_effects index check given hget
        have hleft : order.nextStage check given ≠ .selected ∧ (order.nextStage check given).left ≤ 3 := by
          rcases h.checks check (List.mem_of_getElem? hget) with hs | hs
          · refine ⟨fun hn => hsame ?_, ?_⟩
            · unfold HostedOrder.nextStage at hn
              unfold HostedOrder.check
              rw [hs] at hn ⊢
              cases hread : order.readRefund check.item given with
              | none =>
                  rw [hread] at hn
                  cases hn
              | some phase =>
                  rw [hread] at hn
                  dsimp only at hn ⊢
                  by_cases hagrees : order.agreesWithProvider check.item.reference phase = true
                  · rw [if_pos hagrees] at hn
                    cases hn
                  · rw [if_neg hagrees]
            · unfold HostedOrder.nextStage
              rw [hs]
              dsimp only
              split
              · exact Nat.zero_le _
              · split_ifs
                · exact Nat.le_refl 3
                · exact Nat.zero_le _
          · have hnext : order.nextStage check given = .done := by
              unfold HostedOrder.nextStage
              rw [hs]
            rw [hnext]
            exact ⟨fun hn => CheckStage.noConfusion hn, Nat.zero_le _⟩
        have hlater : (order.check index check given).checks[index]? =
            some { check with stage := order.nextStage check given } := by
          rw [hchecks, List.getElem?_set_self (List.getElem?_eq_some_iff.mp hget).1]
        obtain ⟨hends, hcalls', hinterrupted'⟩ := told_ends 3 index _ given hlater hleft.1 hleft.2
        have hrun : order.run (List.replicate 4 (.check index given)) =
            (order.check index check given).run (List.replicate 3 (.check index given)) := by
          rw [List.replicate_succ]
          change (order.step (.check index given)).run _ = _
          rw [hstep]
        rw [hrun]
        refine ⟨?_, ?_, hinterrupted' (hinterrupted h.interrupted)⟩
        · rw [hcalls', hcalls]
          exact h.calls
        · rw [hends, hchecks, List.set_set]
          intro other ho
          rcases List.mem_or_eq_of_mem_set ho with ho | rfl
          · exact h.checks other ho
          · exact .inr rfl

theorem Resting.blocks (indices : List ℕ) (h : Resting order) (first : ℕ) (given : ℕ → Given) :
    Resting (order.run (indices.flatMap fun i => List.replicate 4 (.check (first + i) (given i)))) := by
  induction indices generalizing order with
  | nil => exact h
  | cons i rest ih =>
      rw [List.flatMap_cons, HostedOrder.run, List.foldl_append]
      exact ih (h.block (first + i) (given i))

theorem timelyAlong_checks (steps : List HostedStep)
    (h : ∀ step ∈ steps, ∃ index given, step = .check index given) : TimelyAlong order steps := by
  induction steps generalizing order with
  | nil => trivial
  | cons step rest ih =>
      refine ⟨?_, ih fun other ho => h other (List.mem_cons_of_mem _ ho)⟩
      obtain ⟨index, given, rfl⟩ := h step List.mem_cons_self
      trivial

-- Once everything has stopped and every interrupted call was taken up again, the order says after a pass what the
-- journal says.
theorem settled_after_check (order : HostedOrder) (hnew : NewOrder order) (steps : List HostedStep)
    (htimely : TimelyAlong order steps) (hstopped : Stopped (order.run steps))
    (hrepaired : (order.run steps).interrupted = []) (now : ℤ) (given : ℕ → Given) :
    Settled ((order.run steps).checkRefunds now given) := by
  have hl := hnew.ledgerInvariant.run steps
  have ha := hnew.agreementInvariant.run steps hnew.ledgerInvariant htimely
  have hrest : Resting ((order.run steps).step (.select now)) := by
    refine ⟨hstopped.calls, fun check hc => ?_, hrepaired⟩
    rcases List.mem_append.mp hc with hc | hc
    · exact .inr (hstopped.checks check hc)
    · obtain ⟨item, _, rfl⟩ := List.mem_map.mp hc
      exact .inl rfl
  have hpass : TimelyAlong (order.run steps) ((order.run steps).checkSteps now given) := by
    refine ⟨trivial, timelyAlong_checks _ fun step hs => ?_⟩
    obtain ⟨i, _, hi⟩ := List.mem_flatMap.mp hs
    exact ⟨_, _, (List.mem_replicate.mp hi).2⟩
  refine settled_of_resting (ha.run _ hl hpass) (hl.run _) ?_
  exact hrest.blocks _ (order.run steps).checks.length given

end Passes

section Examples

def readOf (requestKey status : String) : OrderRead := ⟨[⟨[.refund requestKey], status⟩], "", none⟩

-- What a pass reads later.
def laterRead (requestKey : String) : Given :=
  { given .unreachable (some (readOf requestKey "PROCESSED")) with now := 1000 }

-- The answer is lost and the adjustment pending until a pass finds the refund.
def lostAnswer : List HostedStep := refundSteps 1 "a" 60 .unreachable ++ [.advance 1 (given .unreachable none)]

theorem settled_after_check_lost :
    Settled ((paidOrder.run lostAnswer).checkRefunds 1000 fun _ => laterRead "a") ∧
      ((paidOrder.run lostAnswer).checkRefunds 1000 fun _ => laterRead "a").adjustments.rows =
        [refundAdjustment (.refund "a") .completed 60] := by
  have htimely : TimelyAlong paidOrder lostAnswer := by decide +kernel
  have hstopped : Stopped (paidOrder.run lostAnswer) := ⟨by decide +kernel, by decide +kernel⟩
  exact ⟨settled_after_check paidOrder paidOrder_new lostAnswer htimely hstopped (by decide +kernel) 1000 _,
    by decide +kernel⟩

-- The process stops between the journal and the order, and no pass looks at the call again.
def crashedBetween : List HostedStep := refundSteps 1 "a" 60 (.answered "PROCESSED") ++ [.crash 1]

theorem crashed_refund_unrecorded :
    ¬∀ (order : HostedOrder) (steps : List HostedStep) (now : ℤ) (given : ℕ → Given), NewOrder order →
      Stopped (order.run steps) → FinalAnswers (order.run steps) now given →
      Settled ((order.run steps).checkRefunds now given) := by
  intro h
  have hstopped : Stopped (paidOrder.run crashedBetween) := ⟨by decide +kernel, by decide +kernel⟩
  have hanswers : FinalAnswers (paidOrder.run crashedBetween) 1000 fun _ => laterRead "a" := by
    have hnone : outstandingRefunds (paidOrder.run crashedBetween).journal.rows 1000 = [] := by decide +kernel
    refine ⟨by decide +kernel, fun i item hi => ?_⟩
    rw [hnone] at hi
    cases hi
  have hsettled := (h paidOrder crashedBetween 1000 _ paidOrder_new hstopped hanswers).succeeded
  revert hsettled
  decide +kernel

end Examples

end AgenticOrg.Commerce.Hosted
