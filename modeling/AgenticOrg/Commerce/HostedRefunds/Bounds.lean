import AgenticOrg.Commerce.HostedRefunds.Ledgers

namespace AgenticOrg.Commerce.Hosted

open Tables

section Sums

variable {order : HostedOrder}

theorem agreesWithProvider_failed (reference : Reference)
    (h : order.agreesWithProvider reference .failed = true) :
    ∃ call, order.provider.find? reference = some call ∧ call.verdict = .refused := by
  unfold HostedOrder.agreesWithProvider at h
  obtain ⟨call, hf, hv⟩ := (Option.any_eq_true _ _).mp h
  exact ⟨call, hf, decide_eq_true_eq.mp hv⟩

theorem agreesWithProvider_succeeded (reference : Reference)
    (h : order.agreesWithProvider reference .succeeded = true) :
    ∃ call, order.provider.find? reference = some call ∧ call.verdict = .refunded := by
  unfold HostedOrder.agreesWithProvider at h
  obtain ⟨call, hf, hv⟩ := (Option.any_eq_true _ _).mp h
  exact ⟨call, hf, decide_eq_true_eq.mp hv⟩

-- A call that the provider did not refuse still counts in the journal.
theorem LedgerInvariant.mem_openRefunds (h : LedgerInvariant order) (call : ProviderCall)
    (hc : call ∈ order.provider.rows) (hv : call.verdict ≠ .refused) :
    call.reference ∈ openRefunds order.journal.entries := by
  refine (Commerce.mem_openRefunds _ _).mpr ⟨?_, ?_⟩
  · rw [mem_references_iff h]
    exact (h.provider call hc).has
  · by_contra hfailed
    rw [Bool.not_eq_false, hasPhase_iff] at hfailed
    obtain ⟨entry, he, _, href, hphase⟩ := hfailed
    obtain ⟨row, hr, rfl⟩ := (mem_entries order.journal entry).mp he
    have hagrees := (h.rows row hr).2.2.1
    rw [hphase, href] at hagrees
    obtain ⟨other, hf, hrefused⟩ := agreesWithProvider_failed call.reference hagrees
    have hself : order.provider.find? call.reference = some call :=
      (order.provider.find?_eq_some_iff _ _).mpr ⟨hc, rfl⟩
    rw [hself, Option.some.injEq] at hf
    exact hv (hf ▸ hrefused)

-- What the provider may have processed is journalled.
theorem LedgerInvariant.processed_le (h : LedgerInvariant order) :
    order.processed ≤ refundedOf order.journal.entries := by
  have hcalls : order.processed = (((order.provider.rows.filter (·.verdict ≠ .refused)).map (·.reference)).map
      (Commerce.requestedAmount order.journal.entries .refund)).sum := by
    rw [HostedOrder.processed, List.map_map]
    refine congrArg List.sum (List.map_congr_left fun call hc => ?_)
    exact (h.requestedAmount _ _ (h.provider call (List.mem_filter.mp hc).1)).symm
  rw [hcalls]
  refine Lists.sum_le_of_subset _ _ _ ?_ ?_ ?_
  · exact (List.filter_sublist.map _).nodup order.provider.distinct
  · intro reference hr
    obtain ⟨call, hc, rfl⟩ := List.mem_map.mp hr
    rw [List.mem_filter, decide_eq_true_eq] at hc
    exact h.mem_openRefunds call hc.1 hc.2
  · exact fun reference _ => requestedAmount_nonneg .refund _ h.nonnegative reference

-- No refund call stands for what was recorded by hand.
theorem recordedByHand_le (order : HostedOrder) :
    order.recordedByHand ≤
      recordedRefunds order.adjustments.rows ((references .refund order.journal.entries).map .refund) := by
  have hkept : ∀ adjustment : Adjustment, adjustment.id.byHand = true →
      (!((references .refund order.journal.entries).map AdjustmentId.refund).contains adjustment.id) = true := by
    intro adjustment hhand
    rw [Bool.not_eq_true', List.contains_eq_mem, decide_eq_false_iff_not, List.mem_map]
    rintro ⟨reference, _, he⟩
    rw [← he] at hhand
    cases hhand
  refine List.Sublist.sum_le_sum ((List.monotone_filter_right _ hkept).map _) ?_
  intro amount hm
  obtain ⟨adjustment, _, rfl⟩ := List.mem_map.mp hm
  exact refunded_nonneg adjustment

end Sums

section Admissions

variable {order : HostedOrder}

theorem applyOrderChange_journal (order : HostedOrder) (reference : Reference) (status : AdjustmentStatus) (amount : ℤ) :
    (order.applyOrderChange reference status amount).journal = order.journal := by
  unfold HostedOrder.applyOrderChange
  split <;> rfl

theorem interrupt_journal (order : HostedOrder) (reference : Reference) (phase : Phase) :
    (order.interrupt reference phase).journal = order.journal := by
  unfold HostedOrder.interrupt
  split_ifs <;> rfl

-- A requested row comes only from a request that is within the bound.
theorem begin_requested (call : Call) (given : Given) (row : HostedRow)
    (hr : row ∈ (order.begin call given).journal.rows) (hn : row ∉ order.journal.rows) :
    order.refunded + row.amountMinorUnits ≤ order.totalMinorUnits := by
  unfold HostedOrder.begin at hr
  split_ifs at hr with hjournalled hproblem
  · exact absurd hr hn
  · exact absurd hr hn
  · split at hr
    · exact absurd hr hn
    · rename_i journal hi
      rw [Option.not_isSome_iff_eq_none] at hproblem
      have hwithin := refundProblem_none call.amount given.credentials hproblem
      have hmem : row ∈ journal.rows := hr
      rw [(Table.rows_insert? order.journal journal _ hi).1, List.mem_append, List.mem_singleton] at hmem
      rcases hmem with hmem | rfl
      · exact absurd hmem hn
      · exact hwithin

theorem LedgerInvariant.advance_requested (h : LedgerInvariant order) (call : Call) (given : Given)
    (hc : call ∈ order.calls.rows) (row : HostedRow) (hr : row ∈ (order.advance call given).journal.rows)
    (hn : row ∉ order.journal.rows) (hphase : row.phase = .requested) :
    order.refunded + row.amountMinorUnits ≤ order.totalMinorUnits := by
  have hfits := h.calls call hc
  unfold HostedOrder.advance at hr
  split at hr
  next => exact absurd hr hn
  next => exact absurd hr hn
  next status amount _ =>
    have hsame : (order.applyOrderChange call.reference status amount).journal = order.journal :=
      applyOrderChange_journal _ _ _ _
    exact absurd (hsame ▸ hr) hn
  next =>
    split_ifs at hr
    · exact absurd hr hn
    · exact absurd hr hn
  next => exact absurd hr hn
  next => exact begin_requested call given row hr hn
  next => exact absurd hr hn
  next =>
    split_ifs at hr
    · exact absurd hr hn
    · exact absurd hr hn
  next phase hstage =>
    rw [hstage] at hfits
    split at hr
    · exact absurd hr hn
    · rename_i journal hi
      have hmem : row ∈ journal.rows := hr
      rw [(Table.rows_insert? order.journal journal _ hi).1, List.mem_append, List.mem_singleton] at hmem
      rcases hmem with hmem | rfl
      · exact absurd hmem hn
      · exact absurd hphase hfits.2.1
  next => exact absurd hr hn

theorem LedgerInvariant.check_requested (h : LedgerInvariant order) (index : ℕ) (check : Check) (given : Given)
    (hc : check ∈ order.checks) (row : HostedRow) (hr : row ∈ (order.check index check given).journal.rows)
    (hn : row ∉ order.journal.rows) : row.phase ≠ .requested := by
  have hfits := h.checks check hc
  unfold HostedOrder.check at hr
  split at hr
  next =>
    split at hr
    · exact absurd hr hn
    · split_ifs at hr
      · exact absurd hr hn
      · exact absurd hr hn
  next phase hstage =>
    rw [hstage] at hfits
    have hmem : row ∈ (order.recordOnce check.item phase given.now).journal.rows := hr
    unfold HostedOrder.recordOnce at hmem
    cases hi : order.journal.insert? (hostedRow check.item.record phase order.providerOrderRef given.now) with
    | none =>
        rw [hi] at hmem
        exact absurd hmem hn
    | some journal =>
        rw [hi] at hmem
        dsimp only [Option.getD_some] at hmem
        rw [(Table.rows_insert? order.journal journal _ hi).1, List.mem_append, List.mem_singleton] at hmem
        rcases hmem with hmem | rfl
        · exact absurd hmem hn
        · exact hfits.1.ne_requested.1
  next phase _ =>
    split at hr
    · rename_i later hs
      have hsame : later.journal = order.journal := by
        unfold HostedOrder.setOrderAdjustmentStatus at hs
        split at hs
        · cases hs
        · split_ifs at hs
          cases hs
          rfl
      exact absurd (hsame ▸ hr) hn
    · exact absurd hr hn
  next =>
    have hsame : (order.applyOrderChange check.item.reference .completed check.item.amount).journal = order.journal :=
      applyOrderChange_journal _ _ _ _
    exact absurd (hsame ▸ hr) hn
  next => exact absurd hr hn

theorem LedgerInvariant.step_requested (h : LedgerInvariant order) (step : HostedStep) (row : HostedRow)
    (hr : row ∈ (order.step step).journal.rows) (hn : row ∉ order.journal.rows) (hphase : row.phase = .requested) :
    order.refunded + row.amountMinorUnits ≤ order.totalMinorUnits := by
  unfold HostedOrder.step at hr
  cases step with
  | request number requestKey repeatable decisionId amount =>
      dsimp only at hr
      by_cases hamount : amount < 1
      · rw [if_pos hamount] at hr
        exact absurd hr hn
      · rw [if_neg hamount] at hr
        exact absurd hr hn
  | advance number given =>
      dsimp only at hr
      split at hr
      · rename_i call hf
        exact h.advance_requested call given (order.calls.mem_of_find? number call hf).1 row hr hn hphase
      · exact absurd hr hn
  | crash number =>
      dsimp only at hr
      split at hr
      · rename_i call hf
        unfold HostedOrder.crash at hr
        split at hr
        · have hsame := interrupt_journal order call.reference .succeeded
          exact absurd (hsame ▸ hr) hn
        · exact absurd hr hn
      · exact absurd hr hn
  | decideVerdict reference refunded => exact absurd hr hn
  | select now => exact absurd hr hn
  | check index given =>
      dsimp only at hr
      split at hr
      · rename_i check hget
        exact absurd hphase (h.check_requested index check given (List.mem_of_getElem? hget) row hr hn)
      · exact absurd hr hn
  | crashCheck index =>
      dsimp only at hr
      split at hr
      · rename_i check hget
        have hsame := fun phase => interrupt_journal order check.item.reference phase
        unfold HostedOrder.crashCheck at hr
        split at hr
        · exact absurd (hsame _ ▸ hr) hn
        · exact absurd (hsame _ ▸ hr) hn
        · exact absurd hr hn
      · exact absurd hr hn
  | adjust number type status totals =>
      dsimp only at hr
      split_ifs at hr
      · exact absurd hr hn
      · exact absurd hr hn

theorem advance_total (call : Call) (given : Given) :
    (order.advance call given).totalMinorUnits = order.totalMinorUnits := by
  unfold HostedOrder.advance HostedOrder.begin HostedOrder.applyOrderChange
  repeat' split
  all_goals rfl

theorem check_total (index : ℕ) (check : Check) (given : Given) :
    (order.check index check given).totalMinorUnits = order.totalMinorUnits := by
  unfold HostedOrder.check
  split
  next => repeat' split
          all_goals rfl
  next => rfl
  next =>
    split
    · rename_i later hs
      unfold HostedOrder.setOrderAdjustmentStatus at hs
      split at hs
      · cases hs
      · split_ifs at hs
        cases hs
        rfl
    · rfl
  next =>
    unfold HostedOrder.applyOrderChange
    split <;> rfl
  next => rfl

theorem step_total (step : HostedStep) : (order.step step).totalMinorUnits = order.totalMinorUnits := by
  unfold HostedOrder.step
  cases step with
  | advance number given =>
      dsimp only
      split
      · exact advance_total _ given
      · rfl
  | check index given =>
      dsimp only
      split
      · exact check_total index _ given
      · rfl
  | crash number =>
      dsimp only
      unfold HostedOrder.crash HostedOrder.interrupt
      repeat' split
      all_goals rfl
  | crashCheck index =>
      dsimp only
      unfold HostedOrder.crashCheck HostedOrder.interrupt
      repeat' split
      all_goals rfl
  | request number requestKey repeatable decisionId amount =>
      dsimp only
      split <;> rfl
  | adjust number type status totals =>
      dsimp only
      split <;> rfl
  | decideVerdict reference refunded => rfl
  | select now => rfl

theorem run_total (order : HostedOrder) (steps : List HostedStep) : (order.run steps).totalMinorUnits = order.totalMinorUnits := by
  induction steps generalizing order with
  | nil => rfl
  | cons step rest ih => exact (ih (order.step step)).trans (step_total step)

-- What the provider may have refunded stays within the order's total, and a request is admitted only when it is
-- within it together with that and with what was refunded by hand.
theorem hosted_refunds_within_total (order : HostedOrder) (hnew : NewOrder order) (steps : List HostedStep) :
    (order.run steps).processed ≤ order.totalMinorUnits ∧
      ∀ step row, row ∈ ((order.run steps).step step).journal.rows → row ∉ (order.run steps).journal.rows →
        row.phase = .requested →
          (order.run steps).processed + (order.run steps).recordedByHand + row.amountMinorUnits ≤
            order.totalMinorUnits := by
  have h := hnew.ledgerInvariant.run steps
  have htotal := run_total order steps
  have hprocessed := h.processed_le
  have hbound := h.bound
  refine ⟨by omega, fun step row hr hn hphase => ?_⟩
  have hwithin := h.step_requested step row hr hn hphase
  have hhand := recordedByHand_le (order.run steps)
  rw [HostedOrder.refunded, hostedRefunded] at hwithin
  omega

end Admissions

section Examples

def paidOrder : HostedOrder where
  totalMinorUnits := 100
  currency := "INR"
  providerOrderRef := some "v1-1"
  journal := .empty
  adjustments := .empty
  provider := .empty
  calls := .empty
  checks := []
  interrupted := []

theorem paidOrder_new : NewOrder paidOrder :=
  ⟨by decide, rfl, fun _ ha => absurd ha List.not_mem_nil, rfl, rfl, rfl, rfl⟩

def given (answer : HostedAnswer) (read : Option OrderRead) : Given where
  now := 0
  consumed := true
  credentials := true
  answer := answer
  read := read

-- A request up to the journal row of its answer.
def refundSteps (number : ℕ) (requestKey : String) (amount : ℤ) (answer : HostedAnswer) : List HostedStep :=
  .request number requestKey true number amount ::
    List.replicate 5 (.advance number (given answer none)) ++
    [.decideVerdict (.refund requestKey) true, .advance number (given answer none), .advance number (given answer none)]

-- One refund is unknown and one recorded by hand: a third does not fit.
def crowdedSteps : List HostedStep :=
  refundSteps 1 "a" 60 .unreachable ++ [.adjust 7 "refund" .completed [⟨"total", -30⟩]] ++
    refundSteps 2 "b" 20 (.answered "PROCESSED")

theorem hosted_refunds_within_total_crowded :
    (paidOrder.run crowdedSteps).processed ≤ 100 ∧ (paidOrder.run crowdedSteps).processed = 60 ∧
      (paidOrder.run crowdedSteps).recordedByHand = 30 :=
  ⟨(hosted_refunds_within_total paidOrder paidOrder_new crowdedSteps).1, by decide +kernel, by decide +kernel⟩

end Examples

end AgenticOrg.Commerce.Hosted
