import AgenticOrg.Commerce.Refunds
import AgenticOrg.Commerce.Payments.Theorems

namespace AgenticOrg.Commerce

open Tables

section Invariants

-- What is journalled and not released stays within the capture, and holds every call the provider may process.
structure RefundInvariant (captured : ℤ) (refunds : Refunds) : Prop where
  same : capturedOf refunds.journal.rows = captured
  nonneg : Nonnegative .refund refunds.journal.rows
  within : refundedOf refunds.journal.rows ≤ captured
  requested : ∀ row ∈ refunds.journal.rows, row.operation = .refund →
    hasPhase refunds.journal.rows .refund .requested row.reference = true
  journalled : ∀ call ∈ refunds.calls, call.mayBeProcessed = true →
    journalEntry call.request.record .requested none ∈ refunds.journal.rows ∧
      hasPhase refunds.journal.rows .refund .failed call.request.reference = false
  distinct : ((refunds.calls.filter (·.mayBeProcessed)).map (·.request.reference)).Nodup
  checked : ∀ call ∈ refunds.calls, call.stage = .checked →
    1 ≤ call.request.amountMinorUnits ∧ call.seen ≤ refundCount refunds.journal.rows ∧
      (call.seen = refundCount refunds.journal.rows →
        refundedOf refunds.journal.rows + call.request.amountMinorUnits ≤ captured)

theorem RefundInvariant.bound (captured : ℤ) (refunds : Refunds) (h : RefundInvariant captured refunds) :
    refunds.processed ≤ captured := by
  have hamounts : (refunds.calls.filter (·.mayBeProcessed)).map (·.request.amountMinorUnits) =
      ((refunds.calls.filter (·.mayBeProcessed)).map (·.request.reference)).map
        (requestedAmount refunds.journal.rows .refund) := by
    rw [List.map_map]
    refine List.map_congr_left fun call hc => ?_
    rw [List.mem_filter] at hc
    have hrow := (h.journalled call hc.1 hc.2).1
    exact (requestedAmount_of_mem _ refunds.journal hrow rfl).symm
  have hopen : ∀ reference ∈ (refunds.calls.filter (·.mayBeProcessed)).map (·.request.reference),
      reference ∈ openRefunds refunds.journal.rows := by
    intro reference hr
    obtain ⟨call, hc, rfl⟩ := List.mem_map.mp hr
    rw [List.mem_filter] at hc
    obtain ⟨hrow, hfailed⟩ := h.journalled call hc.1 hc.2
    exact (mem_openRefunds _ _).mpr ⟨(mem_references _ _ _).mpr ⟨_, hrow, rfl, rfl⟩, hfailed⟩
  have hsum : refunds.processed ≤ refundedOf refunds.journal.rows := by
    rw [Refunds.processed, hamounts]
    exact Lists.sum_le_of_subset _ _ _ h.distinct hopen
      fun reference _ => requestedAmount_nonneg .refund _ h.nonneg reference
  exact hsum.trans h.within

theorem CapturedOrder.invariant (refunds : Refunds) (h : CapturedOrder refunds) :
    RefundInvariant (capturedOf refunds.journal.rows) refunds := by
  have hempty : openRefunds refunds.journal.rows = [] := by
    rw [List.eq_nil_iff_forall_not_mem]
    intro reference hr
    obtain ⟨row, hrow, ho, _⟩ := (mem_references _ _ _).mp ((mem_openRefunds _ _).mp hr).1
    exact h.unrefunded row hrow ho
  have hzero : refundedOf refunds.journal.rows = 0 :=
    congrArg (fun refs => (List.map (requestedAmount refunds.journal.rows .refund) refs).sum) hempty
  refine ⟨rfl, fun row hr ho => absurd ho (h.unrefunded row hr), ?_,
    fun row hr ho => absurd ho (h.unrefunded row hr), ?_, ?_, ?_⟩
  · rw [hzero]
    exact h.captured
  · rw [h.calls]
    exact fun call hc => absurd hc List.not_mem_nil
  · rw [h.calls]
    exact List.nodup_nil
  · rw [h.calls]
    exact fun call hc => absurd hc List.not_mem_nil

-- A request that passes is positive and within what is left of the capture.
theorem refundProblem_none (request : RefundRequest) (rows : List JournalEntry) (credentials : Bool)
    (h : refundProblem request (paymentStateFrom rows) credentials = none) :
    1 ≤ request.amountMinorUnits ∧ refundedOf rows + request.amountMinorUnits ≤ capturedOf rows := by
  have hamount : amountProblem request.amountMinorUnits request.currency
      (min request.orderTotalMinorUnits (paymentStateFrom rows).refundableMinorUnits)
      request.allowanceMaxMinorUnits (paymentStateFrom rows).currency "refund_exceeds_captured" = none := by
    unfold refundProblem at h
    cases hd : request.decisionProblem with
    | some reason => simp [hd] at h
    | none =>
        rw [Option.eq_none_iff_forall_ne_some]
        intro reason hr
        simp [hd, hr] at h
  obtain ⟨hone, hceiling⟩ := amountProblem_none _ _ _ _ _ _ hamount
  have hrefundable : request.amountMinorUnits ≤ max 0 (capturedOf rows - refundedOf rows) :=
    hceiling.trans (min_le_right _ _)
  refine ⟨hone, ?_⟩
  omega

theorem RefundInvariant.check (captured : ℤ) (refunds : Refunds) (request : RefundRequest) (credentials : Bool)
    (h : RefundInvariant captured refunds) : RefundInvariant captured (refunds.step (.check request credentials)) := by
  have hnew : (checkCall refunds.journal request credentials).mayBeProcessed = false := by
    unfold checkCall RefundCall.mayBeProcessed
    cases refundProblem request (paymentStateFrom refunds.journal.rows) credentials <;> rfl
  have hmem : ∀ call ∈ refunds.calls ++ [checkCall refunds.journal request credentials],
      call ∈ refunds.calls ∨ call = checkCall refunds.journal request credentials := by
    intro call hc
    rwa [List.mem_append, List.mem_singleton] at hc
  refine ⟨h.same, h.nonneg, h.within, h.requested, ?_, ?_, ?_⟩
  · intro call hc hp
    rcases hmem call hc with hc | rfl
    · exact h.journalled call hc hp
    · rw [hnew] at hp
      cases hp
  · have hfilter : (refunds.calls ++ [checkCall refunds.journal request credentials]).filter (·.mayBeProcessed) =
        refunds.calls.filter (·.mayBeProcessed) := by
      simp [List.filter_append, hnew]
    unfold Refunds.step
    dsimp only
    rw [hfilter]
    exact h.distinct
  · intro call hc hs
    rcases hmem call hc with hc | rfl
    · exact h.checked call hc hs
    · have hnone : refundProblem request (paymentStateFrom refunds.journal.rows) credentials = none := by
        unfold checkCall at hs
        dsimp only at hs
        split at hs
        · assumption
        · cases hs
      obtain ⟨hone, hleft⟩ := refundProblem_none request refunds.journal.rows credentials hnone
      rw [h.same] at hleft
      exact ⟨hone, le_refl _, fun _ => hleft⟩

-- The calls after one of them has moved on.
theorem mem_moved (calls before after : List RefundCall) (call moved other : RefundCall)
    (hcalls : calls = before ++ call :: after) (hm : other ∈ before ++ moved :: after) :
    other = moved ∨ other ∈ calls := by
  rw [hcalls]
  rw [List.mem_append, List.mem_cons] at hm ⊢
  tauto

theorem RefundInvariant.begin (captured : ℤ) (refunds : Refunds) (index : ℕ) (call : RefundCall)
    (h : RefundInvariant captured refunds) (hget : refunds.calls[index]? = some call)
    (hstage : call.stage = .checked) (hseen : call.seen = refundCount refunds.journal.rows) :
    RefundInvariant captured (refunds.begin index call) := by
  obtain ⟨before, after, hcalls, hset⟩ := Lists.split_at refunds.calls index call hget
  have hcall : call ∈ refunds.calls := by
    rw [hcalls]
    simp
  have hidle : call.mayBeProcessed = false := by
    rw [RefundCall.mayBeProcessed, hstage]
  have hprocessed : refunds.calls.filter (·.mayBeProcessed) =
      before.filter (·.mayBeProcessed) ++ after.filter (·.mayBeProcessed) := by
    rw [hcalls, List.filter_append, List.filter_cons, hidle]
    rfl
  obtain ⟨hone, _, hroom⟩ := h.checked call hcall hstage
  unfold Refunds.begin
  cases hb : refunds.journal.begin call.request.record with
  | none =>
      dsimp only
      rw [hset]
      refine ⟨h.same, h.nonneg, h.within, h.requested, ?_, ?_, ?_⟩
      · intro other ho hp
        rcases mem_moved _ before after call _ other hcalls ho with rfl | ho
        · cases hp
        · exact h.journalled other ho hp
      · have hfilter : (before ++ { call with stage := .refused "operation_already_requested" } :: after).filter
            (·.mayBeProcessed) = refunds.calls.filter (·.mayBeProcessed) := by
          rw [hprocessed, List.filter_append, List.filter_cons]
          rfl
        dsimp only
        rw [hfilter]
        exact h.distinct
      · intro other ho hs
        rcases mem_moved _ before after call _ other hcalls ho with rfl | ho
        · cases hs
        · exact h.checked other ho hs
  | some journal =>
      obtain ⟨hrows, hfresh⟩ := Table.rows_insert? refunds.journal journal _ hb
      have hunrequested : hasPhase refunds.journal.rows .refund .requested call.request.reference = false := by
        by_contra hreq
        rw [Bool.not_eq_false, hasPhase_iff] at hreq
        obtain ⟨row, hr, ho, href, hp⟩ := hreq
        exact hfresh row hr (Prod.ext href (Prod.ext ho hp))
      have hcount : refundCount journal.rows = refundCount refunds.journal.rows + 1 := by
        rw [refundCount, refundCount, hrows, List.filter_append, List.length_append]
        rfl
      have hadded := refundedOf_append_requested refunds.journal.rows (journalEntry call.request.record .requested none)
        h.nonneg rfl rfl (by rw [show (journalEntry call.request.record .requested none).amountMinorUnits =
          call.request.amountMinorUnits from rfl]; omega) hunrequested
      have hleft := hroom hseen
      dsimp only
      rw [hset]
      refine ⟨?_, ?_, ?_, ?_, ?_, ?_, ?_⟩
      · rw [hrows, capturedOf_append _ _ (by simp [journalEntry, RefundRequest.record])]
        exact h.same
      · rw [hrows]
        intro row hr ho
        rw [List.mem_append, List.mem_singleton] at hr
        rcases hr with hr | rfl
        · exact h.nonneg row hr ho
        · exact (zero_le_one.trans hone : (0 : ℤ) ≤ call.request.amountMinorUnits)
      · rw [hrows]
        exact hadded.trans hleft
      · rw [hrows]
        intro row hr ho
        rw [hasPhase_append]
        rw [List.mem_append, List.mem_singleton] at hr
        rcases hr with hr | rfl
        · exact .inl (h.requested row hr ho)
        · exact .inr ⟨rfl, rfl, rfl⟩
      · intro other ho hp
        rw [hrows]
        have hkeep : ∀ reference, hasPhase (refunds.journal.rows ++ [journalEntry call.request.record .requested none])
            .refund .failed reference = hasPhase refunds.journal.rows .refund .failed reference := by
          intro reference
          simp [hasPhase, journalEntry]
        rw [hkeep]
        rcases mem_moved _ before after call _ other hcalls ho with rfl | ho
        · refine ⟨List.mem_append_right _ (List.mem_singleton_self _), ?_⟩
          by_contra hfailed
          rw [Bool.not_eq_false, hasPhase_iff] at hfailed
          obtain ⟨row, hr, hop, href, _⟩ := hfailed
          have hreq := h.requested row hr hop
          rw [href] at hreq
          exact absurd (hreq.symm.trans hunrequested) (by decide)
        · obtain ⟨hrow, hfailed⟩ := h.journalled other ho hp
          exact ⟨List.mem_append_left _ hrow, hfailed⟩
      · have hold := h.distinct
        rw [hprocessed, List.map_append] at hold
        have hfilter : (before ++ { call with stage := .requested } :: after).filter (·.mayBeProcessed) =
            before.filter (·.mayBeProcessed) ++ { call with stage := .requested } :: after.filter (·.mayBeProcessed) := by
          rw [List.filter_append, List.filter_cons]
          rfl
        have hnew : call.request.reference ∉ (before.filter (·.mayBeProcessed)).map (·.request.reference) ++
            (after.filter (·.mayBeProcessed)).map (·.request.reference) := by
          rw [← List.map_append, ← hprocessed]
          intro hm
          obtain ⟨other, ho, href⟩ := List.mem_map.mp hm
          rw [List.mem_filter] at ho
          have hrow := (h.journalled other ho.1 ho.2).1
          have hhas := (hasPhase_iff _ .refund .requested call.request.reference).mpr ⟨_, hrow, rfl, href, rfl⟩
          rw [hunrequested] at hhas
          cases hhas
        dsimp only
        rw [hfilter, List.map_append, List.map_cons]
        exact List.nodup_middle.mpr (List.nodup_cons.mpr ⟨hnew, hold⟩)
      · intro other ho hs
        rcases mem_moved _ before after call _ other hcalls ho with rfl | ho
        · cases hs
        · obtain ⟨hpos, hle, _⟩ := h.checked other ho hs
          dsimp only
          rw [hcount]
          exact ⟨hpos, by omega, fun he => by omega⟩

theorem phase_ne_requested (answer : RefundAnswer) : answer.phase ≠ .requested := by
  rcases answer with _ | _ | status
  · exact fun h => Phase.noConfusion h
  · exact fun h => Phase.noConfusion h
  · cases status <;> exact fun h => Phase.noConfusion h

-- A call that was answered is one that may still be processed, or no longer.
theorem RefundInvariant.moved (captured : ℤ) (refunds : Refunds) (index : ℕ) (call : RefundCall)
    (given : RefundAnswer) (h : RefundInvariant captured refunds) (hget : refunds.calls[index]? = some call)
    (hstage : call.stage = .requested) :
    RefundInvariant captured
      { refunds with calls := refunds.calls.set index { call with stage := .answered given } } := by
  obtain ⟨before, after, hcalls, hset⟩ := Lists.split_at refunds.calls index call hget
  have hcall : call ∈ refunds.calls := by
    rw [hcalls]
    simp
  have hactive : call.mayBeProcessed = true := by
    rw [RefundCall.mayBeProcessed, hstage]
  have hold := h.distinct
  rw [hcalls, List.filter_append, List.filter_cons, if_pos hactive, List.map_append, List.map_cons] at hold
  rw [hset]
  refine ⟨h.same, h.nonneg, h.within, h.requested, ?_, ?_, ?_⟩
  · intro other ho hp
    rcases mem_moved _ before after call _ other hcalls ho with rfl | ho
    · exact h.journalled call hcall hactive
    · exact h.journalled other ho hp
  · dsimp only
    rw [List.filter_append, List.filter_cons]
    split_ifs
    · rw [List.map_append, List.map_cons]
      exact hold
    · rw [List.map_append]
      exact (List.nodup_cons.mp (List.nodup_middle.mp hold)).2
  · intro other ho hs
    rcases mem_moved _ before after call _ other hcalls ho with rfl | ho
    · cases hs
    · exact h.checked other ho hs

-- An answer row releases no call that may be processed.
theorem RefundInvariant.recorded (captured : ℤ) (refunds : Refunds) (row : JournalEntry) (journal : Journal)
    (h : RefundInvariant captured refunds) (hrows : journal.rows = refunds.journal.rows ++ [row])
    (hop : row.operation = .refund) (hphase : row.phase ≠ .requested) (hamount : 0 ≤ row.amountMinorUnits)
    (hreq : hasPhase refunds.journal.rows .refund .requested row.reference = true)
    (hfailed : row.phase = .failed → ∀ call ∈ refunds.calls, call.mayBeProcessed = true →
      call.request.reference ≠ row.reference) :
    RefundInvariant captured { refunds with journal } := by
  have hle := refundedOf_append_le refunds.journal.rows row h.nonneg fun hr => hphase hr.2
  have hcount : refundCount journal.rows = refundCount refunds.journal.rows := by
    rw [refundCount, refundCount, hrows, List.filter_append, List.length_append]
    simp [hphase]
  refine ⟨?_, ?_, ?_, ?_, ?_, h.distinct, ?_⟩
  · rw [hrows, capturedOf_append _ _ (by rw [hop]; decide)]
    exact h.same
  · rw [hrows]
    intro other ho _
    rw [List.mem_append, List.mem_singleton] at ho
    rcases ho with ho | rfl
    · exact h.nonneg other ho (by assumption)
    · exact hamount
  · rw [hrows]
    exact hle.trans h.within
  · rw [hrows]
    intro other ho hother
    rw [hasPhase_append]
    rw [List.mem_append, List.mem_singleton] at ho
    rcases ho with ho | rfl
    · exact .inl (h.requested other ho hother)
    · exact .inl hreq
  · intro call hc hp
    obtain ⟨hrow, hnot⟩ := h.journalled call hc hp
    dsimp only
    rw [hrows]
    refine ⟨List.mem_append_left _ hrow, ?_⟩
    by_contra hhas
    rw [Bool.not_eq_false, hasPhase_append] at hhas
    rcases hhas with hhas | ⟨_, href, hph⟩
    · rw [hnot] at hhas
      cases hhas
    · exact hfailed hph call hc hp href.symm
  · intro call hc hs
    obtain ⟨hpos, hseen, hroom⟩ := h.checked call hc hs
    dsimp only
    rw [hcount, hrows]
    exact ⟨hpos, hseen, fun he => by have hleft := hroom he; omega⟩

theorem RefundInvariant.answer (captured : ℤ) (refunds : Refunds) (index : ℕ) (call : RefundCall)
    (given : RefundAnswer) (providerRef : Option String) (h : RefundInvariant captured refunds)
    (hget : refunds.calls[index]? = some call) (hstage : call.stage = .requested)
    (hfinal : given.phase = .failed → given.refused = true) :
    RefundInvariant captured (refunds.answer index call given providerRef) := by
  obtain ⟨before, after, hcalls, hset⟩ := Lists.split_at refunds.calls index call hget
  have hactive : call.mayBeProcessed = true := by
    rw [RefundCall.mayBeProcessed, hstage]
  have hrow := (h.journalled call (by rw [hcalls]; simp) hactive).1
  have hnonneg : 0 ≤ call.request.amountMinorUnits := h.nonneg _ hrow rfl
  have hreq : hasPhase refunds.journal.rows .refund .requested call.request.reference = true :=
    h.requested _ hrow rfl
  have hmoved := h.moved captured refunds index call given hget hstage
  unfold Refunds.answer
  cases hf : refunds.journal.finish call.request.record given.phase providerRef with
  | none => exact hmoved
  | some journal =>
      obtain ⟨hrows, _⟩ := Table.rows_insert? refunds.journal journal _ hf
      refine hmoved.recorded captured _ _ journal hrows rfl (phase_ne_requested given) hnonneg
        hreq ?_
      intro hphase other ho hp
      -- the others have references of their own
      have hold := h.distinct
      rw [hcalls, List.filter_append, List.filter_cons, if_pos hactive, List.map_append, List.map_cons] at hold
      have hnew := (List.nodup_cons.mp (List.nodup_middle.mp hold)).1
      dsimp only at ho
      rw [hset, List.mem_append, List.mem_cons] at ho
      rintro href
      refine hnew ?_
      rw [← List.map_append, List.mem_map]
      rcases ho with ho | rfl | ho
      · exact ⟨other, List.mem_append_left _ (List.mem_filter.mpr ⟨ho, hp⟩), href⟩
      · have hrefused : given.refused = true := hfinal hphase
        simp [RefundCall.mayBeProcessed, hrefused] at hp
      · exact ⟨other, List.mem_append_right _ (List.mem_filter.mpr ⟨ho, hp⟩), href⟩

theorem RefundInvariant.step (captured : ℤ) (refunds : Refunds) (step : RefundStep)
    (h : RefundInvariant captured refunds) (hs : step.Serial refunds) :
    RefundInvariant captured (refunds.step step) := by
  cases step with
  | check request credentials => exact h.check captured refunds request credentials
  | begin index =>
      rw [Refunds.step]
      split
      · rename_i call hget
        split_ifs with hstage
        · exact h.begin captured refunds index call hget hstage (hs call hget)
        · exact h
      · exact h
  | answer index given providerRef =>
      rw [Refunds.step]
      split
      · rename_i call hget
        split_ifs with hstage
        · exact h.answer captured refunds index call given providerRef hget hstage hs
        · exact h
      · exact h

theorem RefundInvariant.run (captured : ℤ) (refunds : Refunds) (steps : List RefundStep)
    (h : RefundInvariant captured refunds) (hs : SerialAlong refunds steps) :
    RefundInvariant captured (refunds.run steps) := by
  induction steps generalizing refunds with
  | nil => exact h
  | cons step rest ih => exact ih (refunds.step step) (h.step captured refunds step hs.1) hs.2

-- What the provider may have refunded stays within the capture when no request is journalled between another's
-- check and its own journal row, and only refusals release an amount.
theorem refunds_within_capture (order : Refunds) (hcaptured : CapturedOrder order) (steps : List RefundStep)
    (hserial : SerialAlong order steps) : (order.run steps).processed ≤ capturedOf order.journal.rows :=
  ((hcaptured.invariant order).run _ order steps hserial).bound _ _

end Invariants

section Examples

def capturedJournal (amount : ℤ) : Journal where
  rows :=
    [journalEntry ⟨.createOrder, .order 1, 1, amount, "INR"⟩ .requested none,
     journalEntry ⟨.createOrder, .order 1, 1, amount, "INR"⟩ .succeeded (some "v1-1"),
     journalEntry ⟨.capture, .order 1, 1, amount, "INR"⟩ .requested none,
     journalEntry ⟨.capture, .order 1, 1, amount, "INR"⟩ .succeeded (some "v1-1")]
  distinct := by simp [Keyed.key, journalEntry]

def capturedOrder : Refunds := { journal := capturedJournal 100, calls := [] }

theorem capturedOrder_captured : CapturedOrder capturedOrder := by
  refine ⟨?_, rfl, by decide +kernel⟩
  decide +kernel

def refundOf (key : String) (amount : ℤ) : RefundRequest where
  reference := .refund key
  decisionId := 2
  amountMinorUnits := amount
  currency := "INR"
  orderTotalMinorUnits := 100
  allowanceMaxMinorUnits := some 500
  decisionProblem := none

-- One request after the other: the second is refused.
def serialRefunds : List RefundStep :=
  [.check (refundOf "a" 80) true, .begin 0, .answer 0 .unreachable none, .check (refundOf "b" 30) true, .begin 1]

theorem refunds_within_capture_serial :
    SerialAlong capturedOrder serialRefunds ∧ (capturedOrder.run serialRefunds).processed ≤ 100 := by
  have hserial : SerialAlong capturedOrder serialRefunds := by
    refine ⟨trivial, ?_, fun h => absurd h (by decide), trivial, ?_, trivial⟩
    · unfold RefundStep.Serial
      decide +kernel
    · unfold RefundStep.Serial
      decide +kernel
  exact ⟨hserial, refunds_within_capture capturedOrder capturedOrder_captured serialRefunds hserial⟩

-- Two requests checked before either is journalled are both sent.
theorem overlapping_refunds_exceed_capture :
    ¬∀ (order : Refunds) (steps : List RefundStep), CapturedOrder order →
      (order.run steps).processed ≤ capturedOf order.journal.rows := by
  intro h
  have hbound := h capturedOrder
    [.check (refundOf "a" 100) true, .check (refundOf "b" 100) true, .begin 0, .begin 1,
     .answer 0 (.answered .succeeded) none, .answer 1 (.answered .succeeded) none] capturedOrder_captured
  revert hbound
  decide +kernel

end Examples

end AgenticOrg.Commerce
