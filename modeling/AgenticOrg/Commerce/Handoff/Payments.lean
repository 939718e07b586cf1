import AgenticOrg.Commerce.Handoff

namespace AgenticOrg.Commerce.Handoff

open Tables

section Statements

def Desk.providerOrder (desk : Desk) : Option String := desk.session.order.bind (·.providerOrderRef)

-- The unmatched payments without an order that name the provider order.
def Desk.unordered (desk : Desk) (providerOrderId : String) : ℕ :=
  desk.unmatched.rows.countP fun row => row.key = .order providerOrderId && row.orderId = none

-- Every payment is the order's or one unmatched payment, not both, and no unmatched payment was made up.
structure Accounted (run : HandoffRun) : Prop where
  once : ∀ p ∈ run.paid, (run.desk.providerOrder = some p ∧ run.desk.unordered p = 0) ∨
    (run.desk.providerOrder ≠ some p ∧ run.desk.unordered p = 1)
  reported : ∀ row ∈ run.desk.unmatched.rows, ∀ p, row.key = .order p → p ∈ run.paid

variable (session : HandoffSession) (report : Report)

-- The payment is for the checkout as it stands, and the checkout waits for it.
def HandoffSession.completes : Bool :=
  let record := session.state.record report.reference
  report.payment = .paid && session.status ≠ .completed && !otherOrder record report &&
    amountMatches record report && session.status ≠ .canceled && session.canceledAt.isNone &&
    !record.any (·.cart ≠ session.state.cart)

-- Another link of a checkout that is paid already was paid.
def HandoffSession.paidAgain : Bool :=
  session.status = .completed && report.payment = .paid &&
    (session.state.record report.reference).any (·.status ≠ some .paid)

-- The report is neither of a payment in progress nor applied before.
def HandoffSession.hears : Bool :=
  report.configured && (report.payment ≠ .pending || session.status = .completed) &&
    !(seenEvent session.state report.eventId).1

end Statements

section Conditions

variable (run : HandoffRun) (report : Report)

-- What keeps a report that names its provider order from being accounted for wrongly.
@[mk_iff] structure Accountable : Prop where
  -- A payment that is new is not taken for an event seen before.
  heard : report.pays = true → report.providerOrderId ∉ run.paid → run.desk.session.hears report = true
  -- A new payment under a reference the merchant was told of before completes the checkout.
  untold : report.pays = true → report.providerOrderId ∉ run.paid →
    report.reference ∈ run.desk.session.state.notified → run.desk.session.completes report = true
  -- A new payment of a completed checkout is of another order than the record or of a link not paid.
  unpaid : report.pays = true → report.providerOrderId ∉ run.paid → run.desk.session.status = .completed →
    otherOrder (run.desk.session.state.record report.reference) report = true ∨
      run.desk.session.paidAgain report = true
  -- A payment that was reported before does not complete the checkout.
  settled : report.providerOrderId ∈ run.paid → run.desk.session.hears report = true →
    run.desk.session.completes report = false
  -- The order's own payment comes again under the reference it was paid under.
  own : run.desk.providerOrder = some report.providerOrderId → run.desk.session.hears report = true →
    report.reference ∉ run.desk.session.state.notified →
    run.desk.unmatched.find? (.order report.providerOrderId) = none →
    otherOrder (run.desk.session.state.record report.reference) report = false ∧
      run.desk.session.paidAgain report = false
  -- A report of no payment is of the record's order.
  genuine : report.payment ≠ .paid → report.providerOrderId ∉ run.paid → run.desk.session.hears report = true →
    report.reference ∉ run.desk.session.state.notified →
    otherOrder (run.desk.session.state.record report.reference) report = false

set_option synthInstance.maxSize 1024 in
instance : Decidable (Accountable run report) := decidable_of_iff' _ (accountable_iff run report)

def AccountableStep (run : HandoffRun) : HandoffStep → Prop
  | .confirm report => report ∈ run.found → report.providerOrderId ≠ "" → Accountable run report
  | _ => True

instance (step : HandoffStep) : Decidable (AccountableStep run step) :=
  match step with
  | .confirm _ => inferInstanceAs (Decidable (_ → _ → _))
  | .decide .. | .recheck .. | .consume .. | .settle .. | .update .. | .cancel .. | .find .. => .isTrue trivial

def AccountableAlong (run : HandoffRun) : List HandoffStep → Prop
  | [] => True
  | step :: rest => AccountableStep run step ∧ AccountableAlong (run.step step) rest

def decideAccountableAlong (run : HandoffRun) : (steps : List HandoffStep) → Decidable (AccountableAlong run steps)
  | [] => .isTrue trivial
  | step :: rest =>
      have := decideAccountableAlong (run.step step) rest
      inferInstanceAs (Decidable (_ ∧ _))

instance (steps : List HandoffStep) : Decidable (AccountableAlong run steps) := decideAccountableAlong run steps

end Conditions

section Judging

variable (session : HandoffSession) (report : Report)

-- What a report that creates no order leaves alone.
structure Keeps (session later : HandoffSession) : Prop where
  order : later.order = session.order
  notified : later.state.notified = session.state.notified
  completed : session.status = .completed → later.status = .completed

theorem setReferenceStatus_notified (state : HandoffState) (reference : ℕ) (status : LinkStatus) :
    (setReferenceStatus state reference status).notified = state.notified := by
  unfold setReferenceStatus
  split
  · rfl
  · rfl

theorem retireFailed_notified (state : HandoffState) : (retireFailed state).1.notified = state.notified := by
  unfold retireFailed
  cases state.handoff.bind (·.reference) with
  | none =>
      dsimp only
      split
      · rfl
      · rfl
  | some reference =>
      have hmarked := setReferenceStatus_notified state reference .failed
      dsimp only
      split
      · exact hmarked
      · exact hmarked

theorem attentionOf_unmatched (result : Confirmed) (short : Bool) (h : result ∈ UNMATCHED_RESULTS) :
    attentionOf result short = some (.unmatched result) := if_pos h

theorem confirmFailed_keeps (h : session.status ≠ .completed) :
    Keeps session (session.confirmFailed report).1 ∧
      ∀ short, attentionOf (session.confirmFailed report).2 short = none := by
  unfold HandoffSession.confirmFailed
  dsimp only
  split_ifs
  · exact ⟨⟨rfl, retireFailed_notified _, fun hc => absurd hc h⟩, fun _ => rfl⟩
  · exact ⟨⟨rfl, setReferenceStatus_notified _ _ _, fun hc => absurd hc h⟩, fun _ => rfl⟩
  · exact ⟨⟨rfl, setReferenceStatus_notified _ _ _, fun hc => absurd hc h⟩, fun _ => rfl⟩
  · exact ⟨⟨rfl, rfl, fun hc => hc⟩, fun _ => rfl⟩

-- Money that no order matches.
def HandoffSession.unmatches : Bool :=
  otherOrder (session.state.record report.reference) report || session.paidAgain report ||
    (report.payment = .paid && session.status ≠ .completed && !session.completes report)

theorem judge_cases (hpending : report.payment = .pending → session.status = .completed) :
    (session.completes report = true ∧ session.judge report = (session.completeIntoOrder report, .completed)) ∨
      (session.completes report = false ∧ session.unmatches report = true ∧
        (session.judge report).2 ∈ UNMATCHED_RESULTS ∧ Keeps session (session.judge report).1) ∨
      (session.completes report = false ∧ session.unmatches report = false ∧
        (∀ short, attentionOf (session.judge report).2 short = none) ∧
        Keeps session (session.judge report).1) := by
  have hsame : Keeps session session := ⟨rfl, rfl, fun hc => hc⟩
  unfold HandoffSession.judge
  dsimp only
  by_cases hother : otherOrder (session.state.record report.reference) report = true
  · rw [if_pos hother]
    refine .inr (.inl ⟨?_, ?_, by simp [UNMATCHED_RESULTS], hsame⟩)
    · simp [HandoffSession.completes, hother]
    · simp [HandoffSession.unmatches, hother]
  rw [if_neg hother]
  by_cases hcompleted : session.status = .completed
  · rw [if_pos hcompleted]
    have hc : session.completes report = false := by simp [HandoffSession.completes, hcompleted]
    by_cases hagain : report.payment = .paid ∧
        (session.state.record report.reference).any (·.status ≠ some .paid) = true
    · rw [if_pos hagain]
      refine .inr (.inl ⟨hc, ?_, by simp [UNMATCHED_RESULTS], ⟨rfl, setReferenceStatus_notified _ _ _, fun h => h⟩⟩)
      simp only [HandoffSession.unmatches, HandoffSession.paidAgain, hcompleted, hagain.1, hagain.2]
      simp
    · rw [if_neg hagain]
      refine .inr (.inr ⟨hc, ?_, fun _ => rfl, hsame⟩)
      have hnot : session.paidAgain report = false := by
        rw [Bool.eq_false_iff]
        intro h
        simp only [HandoffSession.paidAgain, Bool.and_eq_true, decide_eq_true_eq] at h
        exact hagain ⟨h.1.2, h.2⟩
      simp [HandoffSession.unmatches, hother, hnot, hcompleted]
  rw [if_neg hcompleted]
  have hagain : session.paidAgain report = false := by simp [HandoffSession.paidAgain, hcompleted]
  by_cases hfailed : report.payment = .failed
  · rw [if_pos hfailed]
    obtain ⟨hkeeps, hneutral⟩ := confirmFailed_keeps session report hcompleted
    refine .inr (.inr ⟨?_, ?_, hneutral, hkeeps⟩)
    · simp [HandoffSession.completes, hfailed]
    · simp [HandoffSession.unmatches, hother, hagain, hfailed]
  rw [if_neg hfailed]
  have hpaid : report.payment = .paid := by
    cases hp : report.payment with
    | paid => rfl
    | failed => exact absurd hp hfailed
    | pending => exact absurd (hpending hp) hcompleted
  -- A payment that does not complete the checkout is money without an order.
  have hun (h : session.completes report = false) : session.unmatches report = true := by
    simp [HandoffSession.unmatches, hpaid, hcompleted, h]
  by_cases hamount : amountMatches (session.state.record report.reference) report = true
  · by_cases hcanceled : session.status = .canceled ∨ session.canceledAt.isSome = true
    · have hc : session.completes report = false := by
        rcases hcanceled with h | h
        · simp [HandoffSession.completes, h]
        · simp [HandoffSession.completes, Option.isNone_eq_false_iff.mpr h]
      rw [if_neg (by simp [hamount]), if_pos hcanceled]
      exact .inr (.inl ⟨hc, hun hc, by simp [UNMATCHED_RESULTS], hsame⟩)
    · rw [if_neg (by simp [hamount]), if_neg hcanceled]
      by_cases hcart : (session.state.record report.reference).any (·.cart ≠ session.state.cart) = true
      · have hc : session.completes report = false := by
          simp only [HandoffSession.completes, hcart]
          simp
        rw [if_pos hcart]
        exact .inr (.inl ⟨hc, hun hc, by simp [UNMATCHED_RESULTS], hsame⟩)
      · rw [if_neg hcart]
        refine .inl ⟨?_, rfl⟩
        rw [not_or] at hcanceled
        rw [Bool.not_eq_true] at hcart hother
        simp only [HandoffSession.completes, hcart, hother, hamount]
        simp [hpaid, hcompleted, hcanceled.1]
        simpa using hcanceled.2
  · have hc : session.completes report = false := by simp [HandoffSession.completes, hamount]
    rw [if_pos (by simp [hamount])]
    exact .inr (.inl ⟨hc, hun hc, by simp [UNMATCHED_RESULTS], hsame⟩)

end Judging

section Confirming

variable (desk : Desk) (report : Report)

theorem noting_same (session : HandoffSession) (eventId : Option String) :
    (session.noting eventId).state.cart = session.state.cart ∧
      (session.noting eventId).state.orders = session.state.orders ∧
      (session.noting eventId).state.notified = session.state.notified := by
  unfold HandoffSession.noting seenEvent
  split
  · exact ⟨rfl, rfl, rfl⟩
  · split_ifs
    · exact ⟨rfl, rfl, rfl⟩
    · exact ⟨rfl, rfl, rfl⟩

theorem record_noting (session : HandoffSession) (eventId : Option String) (reference : ℕ) :
    (session.noting eventId).state.record reference = session.state.record reference := by
  unfold HandoffState.record
  rw [(noting_same session eventId).2.1]

theorem completes_noting (session : HandoffSession) (eventId : Option String) :
    (session.noting eventId).completes report = session.completes report := by
  simp only [HandoffSession.completes, record_noting, (noting_same session eventId).1]
  rfl

theorem unmatches_noting (session : HandoffSession) (eventId : Option String) :
    (session.noting eventId).unmatches report = session.unmatches report := by
  simp only [HandoffSession.unmatches, HandoffSession.paidAgain, record_noting, completes_noting]
  rfl

theorem confirm_unheard (h : desk.session.hears report = false) : (desk.confirm report).1 = desk := by
  unfold Desk.confirm
  split_ifs with hconfigured hpending hseen
  · rfl
  · rfl
  · rfl
  · exfalso
    rw [not_and_or, not_not] at hpending
    rw [Bool.not_eq_true] at hconfigured hseen
    rw [Bool.not_eq_false'] at hconfigured
    rcases hpending with hp | hp
    · simp [HandoffSession.hears, hconfigured, hseen, hp] at h
    · simp [HandoffSession.hears, hconfigured, hseen, hp] at h

theorem confirm_heard (h : desk.session.hears report = true) :
    (report.payment = .pending → desk.session.status = .completed) ∧
      (desk.confirm report).1 =
        (desk.conclude report ((desk.session.noting report.eventId).judge report)).touch report.now := by
  simp only [HandoffSession.hears, Bool.and_eq_true, Bool.or_eq_true, decide_eq_true_eq, Bool.not_eq_true'] at h
  obtain ⟨⟨hconfigured, hpending⟩, hseen⟩ := h
  have hp : report.payment = .pending → desk.session.status = .completed :=
    fun hp => hpending.resolve_left fun hn => hn hp
  refine ⟨hp, ?_⟩
  unfold Desk.confirm
  rw [if_neg (by simp [hconfigured]), if_neg (fun h => h.2 (hp h.1)), if_neg (by simp [hseen])]

-- What the merchant is told of goes to the table once for each reference.
theorem conclude_cases (judged : HandoffSession × Confirmed) :
    (desk.conclude report judged).session.order = judged.1.order ∧
      (desk.conclude report judged).session.status = judged.1.status ∧
      ((desk.conclude report judged).unmatched = desk.unmatched ∧
          (attentionOf judged.2 report.stockShort = none ∨ report.reference ∈ judged.1.state.notified) ∨
        report.reference ∉ judged.1.state.notified ∧
          ∃ reason, attentionOf judged.2 report.stockShort = some reason ∧
            (desk.conclude report judged).unmatched =
              recordPaymentAttention desk.unmatched report reason (judged.1.order.map (·.decisionId))) := by
  unfold Desk.conclude
  split
  · rename_i reason hreason
    unfold Desk.attend
    split_ifs with htold
    · exact ⟨rfl, rfl, .inl ⟨rfl, .inr htold⟩⟩
    · exact ⟨rfl, rfl, .inr ⟨htold, reason, hreason, rfl⟩⟩
  · rename_i hnone
    exact ⟨rfl, rfl, .inl ⟨rfl, .inl hnone⟩⟩

end Confirming

section Accounts

theorem recordPaymentAttention_taken (table : Table UnmatchedPayment) (report : Report) (reason : Attention)
    (orderId : Option ℕ) (row : UnmatchedPayment) (h : table.find? (paymentKey report) = some row) :
    recordPaymentAttention table report reason orderId = table := by
  rw [recordPaymentAttention, Table.insert?_of_taken table _ row h]
  rfl

theorem recordPaymentAttention_free (table : Table UnmatchedPayment) (report : Report) (reason : Attention)
    (orderId : Option ℕ) (h : table.find? (paymentKey report) = none) :
    ∃ row : UnmatchedPayment, row.orderId = (if reason = .stockShort then orderId else none) ∧
      ∀ key, (recordPaymentAttention table report reason orderId).find? key =
        if paymentKey report = key then some row else table.find? key := by
  refine ⟨{ key := paymentKey report, reference := report.reference, reason
            amountMinorUnits := report.amountMinorUnits, currency := report.currency.map (·.toUpper)
            orderId := if reason = .stockShort then orderId else none }, rfl, fun key => ?_⟩
  obtain ⟨later, hlater, _⟩ := table.insert?_of_absent
    { key := paymentKey report, reference := report.reference, reason
      amountMinorUnits := report.amountMinorUnits, currency := report.currency.map (·.toUpper)
      orderId := if reason = .stockShort then orderId else none } h
  rw [recordPaymentAttention, hlater, Option.getD_some]
  exact table.find?_of_insert? later _ hlater key

theorem paymentKey_eq (report : Report) (p : String) (h : paymentKey report = .order p) :
    report.providerOrderId = p ∧ p ≠ "" := by
  unfold paymentKey at h
  by_cases hempty : report.providerOrderId = ""
  · rw [if_pos hempty] at h
    cases h
  · rw [if_neg hempty, PaymentKey.order.injEq] at h
    exact ⟨h, h ▸ hempty⟩

theorem paymentKey_order (report : Report) (h : report.providerOrderId ≠ "") :
    paymentKey report = .order report.providerOrderId := if_neg h

structure AccountInvariant (desk : Desk) (paid : List String) : Prop where
  completed : desk.session.order.isSome = true → desk.session.status = .completed
  ordered : ∀ p, desk.providerOrder = some p → p ∈ paid ∧
    ∀ row, desk.unmatched.find? (.order p) = some row → row.orderId ≠ none
  unordered : ∀ p ∈ paid, desk.providerOrder ≠ some p →
    ∃ row, desk.unmatched.find? (.order p) = some row ∧ row.orderId = none
  reported : ∀ p row, desk.unmatched.find? (.order p) = some row → p ∈ paid

variable {desk later : Desk} {paid : List String}

theorem Desk.unordered_eq (p : String) :
    desk.unordered p = if (desk.unmatched.find? (.order p)).any (·.orderId = none) then 1 else 0 :=
  Table.countP_key desk.unmatched (.order p) (·.orderId = none)

theorem AccountInvariant.accounted (run : HandoffRun) (h : AccountInvariant run.desk run.paid) : Accounted run := by
  refine ⟨fun p hp => ?_, fun row hr p hk => ?_⟩
  · rw [Desk.unordered_eq]
    by_cases ho : run.desk.providerOrder = some p
    · refine .inl ⟨ho, if_neg ?_⟩
      rw [Option.any_eq_true]
      rintro ⟨row, hrow, hnone⟩
      exact (h.ordered p ho).2 row hrow (of_decide_eq_true hnone)
    · obtain ⟨row, hrow, hnone⟩ := h.unordered p hp ho
      refine .inr ⟨ho, if_pos ?_⟩
      rw [hrow]
      exact decide_eq_true hnone
  · exact h.reported p row ((Table.find?_eq_some_iff _ _ _).mpr ⟨hr, hk⟩)

theorem NewRun.accountInvariant (run : HandoffRun) (h : NewRun run) : AccountInvariant run.desk run.paid := by
  refine ⟨fun hs => ?_, fun p hp => ?_, fun p hp => ?_, fun p row hrow => ?_⟩
  · rw [h.order] at hs
    cases hs
  · rw [Desk.providerOrder, h.order] at hp
    cases hp
  · rw [h.paid] at hp
    cases hp
  · have hmem := (Table.mem_of_find? _ _ row hrow).1
    rw [h.unmatched] at hmem
    cases hmem

-- What the accounts are about did not change.
theorem AccountInvariant.same (h : AccountInvariant desk paid) (paid' : List String)
    (hpaid : ∀ p, p ∈ paid' ↔ p ∈ paid) (horder : later.session.order = desk.session.order)
    (hstatus : desk.session.status = .completed → later.session.status = .completed)
    (htable : ∀ p, later.unmatched.find? (.order p) = desk.unmatched.find? (.order p)) :
    AccountInvariant later paid' := by
  have hprovider : later.providerOrder = desk.providerOrder := by rw [Desk.providerOrder, Desk.providerOrder, horder]
  refine ⟨fun hs => ?_, fun p hp => ?_, fun p hp hne => ?_, fun p row hrow => ?_⟩
  · rw [horder] at hs
    exact hstatus (h.completed hs)
  · rw [hprovider] at hp
    rw [hpaid, htable]
    exact h.ordered p hp
  · rw [hprovider] at hne
    rw [htable]
    exact h.unordered p ((hpaid p).mp hp) hne
  · rw [htable] at hrow
    exact (hpaid p).mpr (h.reported p row hrow)

-- A payment that becomes the order is one that nobody had reported.
theorem AccountInvariant.complete (h : AccountInvariant desk paid) (report : Report)
    (hopen : desk.session.status ≠ .completed)
    (hfresh : report.providerOrderId ≠ "" → report.providerOrderId ∉ paid)
    (hstatus : later.session.status = .completed)
    (horder : later.session.order = (desk.session.completeIntoOrder report).order)
    (htable : later.unmatched = desk.unmatched ∨ ∃ decisionId, later.unmatched =
      recordPaymentAttention desk.unmatched report .stockShort (some decisionId)) :
    AccountInvariant later
      (if report.providerOrderId = "" then paid else report.providerOrderId :: paid) := by
  have hnone : desk.providerOrder = none := by
    rw [Desk.providerOrder]
    cases ho : desk.session.order with
    | none => rfl
    | some order => exact absurd (h.completed (by rw [ho]; rfl)) hopen
  have hprovider : later.providerOrder =
      if report.providerOrderId = "" then none else some report.providerOrderId := by
    rw [Desk.providerOrder, horder]
    rfl
  -- The table holds of the payment at most the row of its order.
  have hfind : ∀ q row, later.unmatched.find? (.order q) = some row →
      desk.unmatched.find? (.order q) = some row ∨
        (q = report.providerOrderId ∧ q ≠ "" ∧ row.orderId ≠ none) := by
    intro q row hrow
    rcases htable with ht | ⟨decisionId, ht⟩
    · rw [ht] at hrow
      exact .inl hrow
    · rw [ht] at hrow
      cases hkey : desk.unmatched.find? (paymentKey report) with
      | some other =>
          rw [recordPaymentAttention_taken _ report _ _ other hkey] at hrow
          exact .inl hrow
      | none =>
          obtain ⟨added, hid, hadded⟩ := recordPaymentAttention_free desk.unmatched report .stockShort
            (some decisionId) hkey
          rw [hadded] at hrow
          by_cases hq : paymentKey report = .order q
          · rw [if_pos hq, Option.some.injEq] at hrow
            obtain ⟨hp, hne⟩ := paymentKey_eq report q hq
            refine .inr ⟨hp.symm, hne, ?_⟩
            rw [← hrow, hid]
            exact Option.some_ne_none _
          · rw [if_neg hq] at hrow
            exact .inl hrow
  have hkept : ∀ q row, desk.unmatched.find? (.order q) = some row → later.unmatched.find? (.order q) = some row := by
    intro q row hrow
    rcases htable with ht | ⟨decisionId, ht⟩
    · rw [ht]
      exact hrow
    · rw [ht]
      cases hkey : desk.unmatched.find? (paymentKey report) with
      | some other =>
          rw [recordPaymentAttention_taken _ report _ _ other hkey]
          exact hrow
      | none =>
          obtain ⟨added, _, hadded⟩ := recordPaymentAttention_free desk.unmatched report .stockShort
            (some decisionId) hkey
          rw [hadded, if_neg]
          · exact hrow
          · intro hq
            rw [hq, hrow] at hkey
            cases hkey
  refine ⟨fun _ => hstatus, fun p hp => ?_, fun p hp hne => ?_, fun p row hrow => ?_⟩
  · rw [hprovider] at hp
    split_ifs at hp with hempty
    rw [Option.some.injEq] at hp
    rw [if_neg hempty]
    refine ⟨hp ▸ List.mem_cons_self, fun row hrow => ?_⟩
    rcases hfind p row hrow with hold | ⟨_, _, hid⟩
    · exact absurd (h.reported p row hold) (hp ▸ hfresh hempty)
    · exact hid
  · have hmem : p ∈ paid := by
      split_ifs at hp with hempty
      · exact hp
      · rcases List.mem_cons.mp hp with rfl | hp
        · rw [hprovider, if_neg hempty] at hne
          exact absurd rfl hne
        · exact hp
    obtain ⟨row, hrow, hid⟩ := h.unordered p hmem (by rw [hnone]; exact (Option.some_ne_none p).symm)
    exact ⟨row, hkept p row hrow, hid⟩
  · rcases hfind p row hrow with hold | ⟨rfl, hempty, _⟩
    · have hmem := h.reported p row hold
      split_ifs
      · exact hmem
      · exact List.mem_cons_of_mem _ hmem
    · rw [if_neg hempty]
      exact List.mem_cons_self

-- A payment kept as money without an order is one that nobody had reported.
theorem AccountInvariant.keep (h : AccountInvariant desk paid) (report : Report) (result : Confirmed)
    (orderId : Option ℕ) (hempty : report.providerOrderId ≠ "") (hfresh : report.providerOrderId ∉ paid)
    (horder : later.session.order = desk.session.order)
    (hstatus : desk.session.status = .completed → later.session.status = .completed)
    (htable : later.unmatched = recordPaymentAttention desk.unmatched report (.unmatched result) orderId) :
    AccountInvariant later (report.providerOrderId :: paid) := by
  have hprovider : later.providerOrder = desk.providerOrder := by rw [Desk.providerOrder, Desk.providerOrder, horder]
  have hkey := paymentKey_order report hempty
  have hnone : desk.unmatched.find? (paymentKey report) = none := by
    rw [hkey]
    cases hr : desk.unmatched.find? (.order report.providerOrderId) with
    | none => rfl
    | some row => exact absurd (h.reported _ row hr) hfresh
  obtain ⟨added, hid, hadded⟩ := recordPaymentAttention_free desk.unmatched report (.unmatched result) orderId hnone
  rw [hkey, ← htable] at hadded
  have hself : later.unmatched.find? (.order report.providerOrderId) = some added := by rw [hadded, if_pos rfl]
  have hother : ∀ q, q ≠ report.providerOrderId →
      later.unmatched.find? (.order q) = desk.unmatched.find? (.order q) := by
    intro q hq
    rw [hadded, if_neg]
    rw [PaymentKey.order.injEq]
    exact Ne.symm hq
  refine ⟨fun hs => ?_, fun p hp => ?_, fun p hp hne => ?_, fun p row hrow => ?_⟩
  · rw [horder] at hs
    exact hstatus (h.completed hs)
  · rw [hprovider] at hp
    obtain ⟨hmem, hrows⟩ := h.ordered p hp
    refine ⟨List.mem_cons_of_mem _ hmem, ?_⟩
    rw [hother p fun he => hfresh (he ▸ hmem)]
    exact hrows
  · rw [hprovider] at hne
    by_cases he : p = report.providerOrderId
    · rw [he]
      exact ⟨added, hself, hid⟩
    · rw [hother p he]
      exact h.unordered p ((List.mem_cons.mp hp).resolve_left he) hne
  · by_cases he : p = report.providerOrderId
    · rw [he]
      exact List.mem_cons_self
    · rw [hother p he] at hrow
      exact List.mem_cons_of_mem _ (h.reported p row hrow)

theorem Report.pays_iff (report : Report) :
    report.pays = true ↔ report.payment = .paid ∧ report.providerOrderId ≠ "" := by
  simp [Report.pays]

theorem HandoffSession.completes_paid (session : HandoffSession) (report : Report)
    (h : session.completes report = true) : report.payment = .paid ∧ session.status ≠ .completed := by
  simp only [HandoffSession.completes, Bool.and_eq_true, decide_eq_true_eq] at h
  exact ⟨h.1.1.1.1.1.1, h.1.1.1.1.1.2⟩

theorem HandoffSession.unmatches_iff (session : HandoffSession) (report : Report) :
    session.unmatches report = true ↔ otherOrder (session.state.record report.reference) report = true ∨
      session.paidAgain report = true ∨
      (report.payment = .paid ∧ session.status ≠ .completed ∧ session.completes report = false) := by
  simp [HandoffSession.unmatches, or_assoc, and_assoc]

-- The provider orders reported paid after the report.
def HandoffRun.reported (run : HandoffRun) (report : Report) : List String :=
  if report.pays then report.providerOrderId :: run.paid else run.paid

theorem mem_reported (run : HandoffRun) (report : Report)
    (h : report.pays = true → report.providerOrderId ∈ run.paid) (p : String) :
    p ∈ run.reported report ↔ p ∈ run.paid := by
  unfold HandoffRun.reported
  split_ifs with hpays
  · rw [List.mem_cons]
    exact ⟨fun hp => hp.elim (fun he => he ▸ h hpays) id, .inr⟩
  · exact Iff.rfl

-- A known payment that is not the order's has its row; the order's own payment makes none.
theorem AccountInvariant.known (run : HandoffRun) (report : Report) (h : AccountInvariant run.desk run.paid)
    (hok : Accountable run report) (hknown : report.providerOrderId ∈ run.paid)
    (hheard : run.desk.session.hears report = true) (hun : run.desk.session.unmatches report = true)
    (huntold : report.reference ∉ run.desk.session.state.notified) :
    ∃ row, run.desk.unmatched.find? (.order report.providerOrderId) = some row := by
  by_cases ho : run.desk.providerOrder = some report.providerOrderId
  · cases hrow : run.desk.unmatched.find? (.order report.providerOrderId) with
    | some row => exact ⟨row, rfl⟩
    | none =>
        exfalso
        obtain ⟨hother, hagain⟩ := hok.own ho hheard huntold hrow
        have hcompleted : run.desk.session.status = .completed := by
          refine h.completed ?_
          rw [Desk.providerOrder] at ho
          obtain ⟨order, horder, _⟩ := Option.bind_eq_some_iff.mp ho
          rw [horder]
          rfl
        rcases (HandoffSession.unmatches_iff _ _).mp hun with hu | hu | ⟨_, hu, _⟩
        · rw [hother] at hu
          cases hu
        · rw [hagain] at hu
          cases hu
        · exact hu hcompleted
  · obtain ⟨row, hrow, _⟩ := h.unordered _ hknown ho
    exact ⟨row, hrow⟩

theorem AccountInvariant.unmatched (run : HandoffRun) (report : Report) (h : AccountInvariant run.desk run.paid)
    (hok : report.providerOrderId ≠ "" → Accountable run report)
    (hheard : run.desk.session.hears report = true) (hcompletes : run.desk.session.completes report = false)
    (hun : run.desk.session.unmatches report = true) (horder : later.session.order = run.desk.session.order)
    (hstatus : run.desk.session.status = .completed → later.session.status = .completed)
    (htable : (report.reference ∈ run.desk.session.state.notified ∧ later.unmatched = run.desk.unmatched) ∨
      (report.reference ∉ run.desk.session.state.notified ∧ ∃ result orderId,
        later.unmatched = recordPaymentAttention run.desk.unmatched report (.unmatched result) orderId)) :
    AccountInvariant later (run.reported report) := by
  by_cases hempty : report.providerOrderId = ""
  · -- A payment without its order's id is kept under its reference.
    have hpays : ¬report.pays = true := fun hp => ((Report.pays_iff report).mp hp).2 hempty
    refine h.same _ (mem_reported run report fun hp => absurd hp hpays) horder hstatus fun p => ?_
    rcases htable with ⟨_, ht⟩ | ⟨_, result, orderId, ht⟩
    · rw [ht]
    · rw [ht]
      cases hkey : run.desk.unmatched.find? (paymentKey report) with
      | some row => rw [recordPaymentAttention_taken _ report _ _ row hkey]
      | none =>
          obtain ⟨added, _, hadded⟩ := recordPaymentAttention_free run.desk.unmatched report (.unmatched result)
            orderId hkey
          rw [hadded, if_neg]
          intro hq
          obtain ⟨hp, hne⟩ := paymentKey_eq report p hq
          exact hne (hp ▸ hempty)
  have hok := hok hempty
  by_cases hknown : report.providerOrderId ∈ run.paid
  · refine h.same _ (mem_reported run report fun _ => hknown) horder hstatus fun p => ?_
    rcases htable with ⟨_, ht⟩ | ⟨huntold, result, orderId, ht⟩
    · rw [ht]
    · obtain ⟨row, hrow⟩ := h.known run report hok hknown hheard hun huntold
      rw [← paymentKey_order report hempty] at hrow
      rw [ht, recordPaymentAttention_taken _ report _ _ row hrow]
  · by_cases hpaid : report.payment = .paid
    · have hpays := (Report.pays_iff report).mpr ⟨hpaid, hempty⟩
      rcases htable with ⟨htold, _⟩ | ⟨_, result, orderId, ht⟩
      · have hc := hok.untold hpays hknown htold
        rw [hcompletes] at hc
        cases hc
      · rw [HandoffRun.reported, if_pos hpays]
        exact h.keep report result orderId hempty hknown horder hstatus ht
    · have hpays : ¬report.pays = true := fun hp => hpaid ((Report.pays_iff report).mp hp).1
      rcases htable with ⟨_, ht⟩ | ⟨huntold, _⟩
      · exact h.same _ (mem_reported run report fun hp => absurd hp hpays) horder hstatus fun p => by rw [ht]
      · have hother := hok.genuine hpaid hknown hheard huntold
        rcases (HandoffSession.unmatches_iff _ _).mp hun with hu | hu | ⟨hu, _⟩
        · rw [hother] at hu
          cases hu
        · simp only [HandoffSession.paidAgain, Bool.and_eq_true, decide_eq_true_eq] at hu
          exact absurd hu.1.2 hpaid
        · exact absurd hu hpaid

theorem AccountInvariant.confirm (run : HandoffRun) (report : Report) (h : AccountInvariant run.desk run.paid)
    (hok : report.providerOrderId ≠ "" → Accountable run report) :
    AccountInvariant (run.desk.confirm report).1 (run.reported report) := by
  by_cases hheard : run.desk.session.hears report = true
  · obtain ⟨hpending, hconfirm⟩ := confirm_heard run.desk report hheard
    rw [hconfirm]
    obtain ⟨horder, hstatus, htable⟩ := conclude_cases run.desk report
      ((run.desk.session.noting report.eventId).judge report)
    have hcases := judge_cases (run.desk.session.noting report.eventId) report hpending
    rw [completes_noting, unmatches_noting] at hcases
    have hnotified := (noting_same run.desk.session report.eventId).2.2
    rcases hcases with ⟨hc, hj⟩ | ⟨hc, hu, hresult, hkeeps⟩ | ⟨hc, hu, hneutral, hkeeps⟩
    · obtain ⟨hpaid, hopen⟩ := HandoffSession.completes_paid _ _ hc
      have hreported : run.reported report =
          if report.providerOrderId = "" then run.paid else report.providerOrderId :: run.paid := by
        by_cases hempty : report.providerOrderId = ""
        · rw [HandoffRun.reported, if_pos hempty, if_neg fun hp => ((Report.pays_iff report).mp hp).2 hempty]
        · rw [HandoffRun.reported, if_neg hempty, if_pos ((Report.pays_iff report).mpr ⟨hpaid, hempty⟩)]
      rw [hreported]
      rw [hj] at horder hstatus htable ⊢
      refine h.complete report hopen (fun hempty hknown => ?_) hstatus (horder.trans ?_) ?_
      · have hno := (hok hempty).settled hknown hheard
        rw [hc] at hno
        cases hno
      · simp only [HandoffSession.completeIntoOrder, record_noting]
        rfl
      · rcases htable with ⟨ht, _⟩ | ⟨_, reason, hreason, ht⟩
        · exact .inl ht
        · have hstock : reason = .stockShort := by
            cases hshort : report.stockShort with
            | false =>
                rw [hshort] at hreason
                cases hreason
            | true =>
                rw [hshort] at hreason
                cases hreason
                rfl
          rw [hstock] at ht
          exact .inr ⟨_, ht⟩
    · refine h.unmatched run report hok hheard hc hu (horder.trans hkeeps.order)
        (fun hd => hstatus.trans (hkeeps.completed hd)) ?_
      rw [hkeeps.notified, hnotified] at htable
      rcases htable with ⟨ht, hattention | htold⟩ | ⟨huntold, reason, hreason, ht⟩
      · rw [attentionOf_unmatched _ _ hresult] at hattention
        cases hattention
      · exact .inl ⟨htold, ht⟩
      · rw [attentionOf_unmatched _ _ hresult, Option.some.injEq] at hreason
        rw [← hreason] at ht
        exact .inr ⟨huntold, _, _, ht⟩
    · refine h.same _ (mem_reported run report fun hpays => ?_) (horder.trans hkeeps.order)
        (fun hd => hstatus.trans (hkeeps.completed hd)) fun p => ?_
      · by_contra hknown
        obtain ⟨hpaid, hempty⟩ := (Report.pays_iff report).mp hpays
        have hno : ¬run.desk.session.unmatches report = true := by rw [hu]; exact Bool.false_ne_true
        rw [HandoffSession.unmatches_iff] at hno
        by_cases hcompleted : run.desk.session.status = .completed
        · rcases (hok hempty).unpaid hpays hknown hcompleted with hother | hagain
          · exact hno (.inl hother)
          · exact hno (.inr (.inl hagain))
        · exact hno (.inr (.inr ⟨hpaid, hcompleted, hc⟩))
      · rcases htable with ⟨ht, _⟩ | ⟨_, reason, hreason, _⟩
        · exact congrArg (fun table => Table.find? table (.order p)) ht
        · rw [hneutral] at hreason
          cases hreason
  · rw [Bool.not_eq_true] at hheard
    rw [confirm_unheard run.desk report hheard]
    refine h.same _ (mem_reported run report fun hpays => ?_) rfl id fun _ => rfl
    by_contra hknown
    have hempty := ((Report.pays_iff report).mp hpays).2
    have hheard' := (hok hempty).heard hpays hknown
    rw [hheard] at hheard'
    cases hheard'

end Accounts

section Runs

-- What no other step than a confirmation changes.
structure Untouched (session later : HandoffSession) : Prop where
  order : later.order = session.order
  completed : session.status = .completed → later.status = .completed

theorem AccountInvariant.untouched (run : HandoffRun) (later : HandoffSession)
    (h : AccountInvariant run.desk run.paid) (hlater : Untouched run.desk.session later) :
    AccountInvariant (run.setSession later).desk (run.setSession later).paid :=
  h.same _ (fun _ => Iff.rfl) hlater.order hlater.completed fun _ => rfl

variable (session : HandoffSession)

theorem frozen_of_completed (now : ℤ) (h : session.status = .completed) : session.frozen now = true := by
  simp [HandoffSession.frozen, h, CheckoutStatus.frozen, CheckoutStatus.terminal]

theorem update_untouched (now : ℤ) (cart : Cart) (evaluated : Evaluated) :
    Untouched session (session.update now cart evaluated) := by
  unfold HandoffSession.update
  split_ifs with hf
  · exact ⟨rfl, id⟩
  · refine ⟨rfl, fun hc => absurd ?_ hf⟩
    simp [frozen_of_completed session now hc]

theorem cancel_untouched (now : ℤ) : Untouched session (session.cancel now) := by
  unfold HandoffSession.cancel
  split_ifs with ht
  · exact ⟨rfl, id⟩
  · refine ⟨rfl, fun hc => absurd ?_ ht⟩
    simp [hc, CheckoutStatus.terminal]

theorem recheck_untouched (now : ℤ) (clean : Bool) (cart : Cart) (evaluated : Evaluated) :
    Untouched session (session.recheck now clean cart evaluated) := by
  unfold HandoffSession.recheck
  by_cases hcond : (session.completable now clean &&
      !(session.state.orders.any fun entry => payable (some entry.2))) = true
  · rw [if_pos hcond]
    refine ⟨rfl, fun hc => absurd hcond ?_⟩
    simp [HandoffSession.completable, frozen_of_completed session now hc]
  · rw [if_neg hcond]
    exact ⟨rfl, id⟩

theorem consume_untouched (now : ℤ) (mode : Mode) (decisionId revision : ℕ)
    (h : session.consumable now revision = true) : Untouched session (session.consume now mode decisionId) := by
  have hopen : ¬session.status = .completed := by
    intro hc
    simp [HandoffSession.consumable, frozen_of_completed session now hc] at h
  cases mode with
  | shopifyCart => exact ⟨rfl, fun hc => absurd hc hopen⟩
  | pluralHosted => exact ⟨rfl, fun hc => absurd hc hopen⟩

theorem settle_untouched (later : ℤ) (decisionId : ℕ) (created : Option String) :
    Untouched session (session.settle later decisionId created) := by
  unfold HandoffSession.settle
  split_ifs with hstale
  · exact ⟨rfl, id⟩
  · have hopen : ¬session.status = .completed := by
      intro hc
      refine hstale (.inr ?_)
      rw [hc]
      decide
    cases created with
    | none => exact ⟨rfl, fun hc => absurd hc hopen⟩
    | some providerOrderId => exact ⟨rfl, fun hc => absurd hc hopen⟩

theorem AccountInvariant.step (run : HandoffRun) (step : HandoffStep) (h : AccountInvariant run.desk run.paid)
    (hok : AccountableStep run step) : AccountInvariant (run.step step).desk (run.step step).paid := by
  cases step with
  | decide now clean decisionId =>
      unfold HandoffRun.step
      dsimp only
      split_ifs
      · exact h
      · exact h
  | recheck now clean cart evaluated => exact h.untouched run _ (recheck_untouched _ now clean cart evaluated)
  | consume now mode decisionId revision =>
      unfold HandoffRun.step
      dsimp only
      split_ifs with hcond
      · exact h.untouched run _ (consume_untouched _ now mode decisionId revision hcond.2)
      · exact h
  | settle later decisionId created => exact h.untouched run _ (settle_untouched _ later decisionId created)
  | update now cart evaluated => exact h.untouched run _ (update_untouched _ now cart evaluated)
  | cancel now => exact h.untouched run _ (cancel_untouched _ now)
  | find report =>
      unfold HandoffRun.step
      dsimp only
      split_ifs
      · exact h
      · exact h
  | confirm report =>
      unfold HandoffRun.step
      by_cases hfound : report ∈ run.found
      · dsimp only
        rw [if_pos hfound]
        exact h.confirm run report (hok hfound)
      · dsimp only
        rw [if_neg hfound]
        exact h

theorem AccountInvariant.run (run : HandoffRun) (steps : List HandoffStep) (h : AccountInvariant run.desk run.paid)
    (hok : AccountableAlong run steps) : AccountInvariant (run.run steps).desk (run.run steps).paid := by
  induction steps generalizing run with
  | nil => exact h
  | cons step rest ih => exact ih (run.step step) (h.step run step hok.1) hok.2

-- In a run whose reports are accountable every payment is accounted for once, whatever the order of the steps.
theorem payments_accounted (run : HandoffRun) (steps : List HandoffStep) (hnew : NewRun run)
    (hok : AccountableAlong run steps) : Accounted (run.run steps) :=
  (hnew.accountInvariant.run run steps hok).accounted

end Runs

section Examples

def soldCart : Cart := ⟨[⟨"mug", 1, 100⟩], 100, "INR", []⟩

def newSession : HandoffSession where
  status := .readyForComplete
  canceledAt := none
  completedAt := none
  createdAt := 0
  expiresAt := 7200
  updatedAt := 0
  revision := 1
  decisionId := none
  state := ⟨soldCart, none, [], [], [], []⟩
  order := none

def newRun : HandoffRun := ⟨⟨newSession, Table.empty⟩, [], [], [], []⟩

theorem newRun_new : NewRun newRun := ⟨rfl, rfl, rfl, rfl, rfl, rfl, rfl, rfl, rfl, rfl, rfl, rfl⟩

-- A Complete at a revision, up to the link.
def linkSteps (now : ℤ) (decisionId revision : ℕ) (providerOrderId : String) : List HandoffStep :=
  [.decide now true decisionId, .consume now .pluralHosted decisionId revision,
    .settle now decisionId (some providerOrderId)]

def paidReport (reference : ℕ) (providerOrderId : String) (amount : Option ℤ) : Report :=
  ⟨reference, providerOrderId, "PROCESSED", amount, some "inr", none, true, false, 100⟩

def reportSteps (report : Report) : List HandoffStep := [.find report, .confirm report]

theorem run_append (run : HandoffRun) (steps rest : List HandoffStep) :
    run.run (steps ++ rest) = (run.run steps).run rest := List.foldl_append

theorem AccountableAlong.append (run : HandoffRun) (steps rest : List HandoffStep) (h : AccountableAlong run steps)
    (hrest : AccountableAlong (run.run steps) rest) : AccountableAlong run (steps ++ rest) := by
  induction steps generalizing run with
  | nil => exact hrest
  | cons step steps ih => exact ⟨h.1, ih (run.step step) h.2 hrest⟩

def issuedRecord : LinkRecord := ⟨1, 100, "INR", soldCart, some .issued, some "v1", some 0, some 1800⟩

-- The checkout waits for the payment of its link.
def linkedSession : HandoffSession :=
  { newSession with
    status := .requiresEscalation
    revision := 3
    decisionId := some 1
    state :=
      { newSession.state with
        handoff := some ⟨.pluralHosted, .issued, 1, some 1, some "v1", some 0, some 1800⟩
        refs := [1]
        orders := [(1, issuedRecord)] } }

def canceledRun : HandoffRun :=
  { newRun with
    desk.session :=
      { linkedSession with status := .canceled, canceledAt := some 50, revision := 4, updatedAt := 50 }
    decisions := [1] }

-- The link is paid after the buyer canceled.
def paidAfterCancel : List HandoffStep := linkSteps 0 1 1 "v1" ++ [.cancel 50]

theorem run_paidAfterCancel : newRun.run paidAfterCancel = canceledRun := by decide +kernel

theorem payments_accounted_after_cancel :
    Accounted (newRun.run (paidAfterCancel ++ reportSteps (paidReport 1 "v1" (some 100)))) ∧
      (newRun.run (paidAfterCancel ++ reportSteps (paidReport 1 "v1" (some 100)))).desk.unordered "v1" = 1 := by
  have hreport : AccountableAlong (newRun.run paidAfterCancel) (reportSteps (paidReport 1 "v1" (some 100))) := by
    rw [run_paidAfterCancel]
    decide +kernel
  have hok := AccountableAlong.append newRun paidAfterCancel _ (by decide +kernel) hreport
  refine ⟨payments_accounted newRun _ newRun_new hok, ?_⟩
  rw [run_append, run_paidAfterCancel]
  decide +kernel

def linkedRun : HandoffRun := { newRun with desk.session := linkedSession, decisions := [1] }

-- The payment is kept as money without an order, for its amount is not known.
def unpricedRow : UnmatchedPayment := ⟨.order "v1", 1, .unmatched .amountMismatch, none, some "INR", none⟩

def unpricedRun : HandoffRun :=
  { linkedRun with
    desk :=
      ⟨{ linkedSession with
          revision := 4
          updatedAt := 100
          state := { linkedSession.state with notified := [1] } },
        ⟨[unpricedRow], by decide⟩⟩
    found := [paidReport 1 "v1" none]
    paid := ["v1"] }

theorem run_linkSteps : newRun.run (linkSteps 0 1 1 "v1") = linkedRun := by decide +kernel

theorem run_unpriced : linkedRun.run (reportSteps (paidReport 1 "v1" none)) = unpricedRun := by decide +kernel

-- A poll reads the paid order without its amount, the next one reads it with it.
def polledTwice : List HandoffStep :=
  linkSteps 0 1 1 "v1" ++ (reportSteps (paidReport 1 "v1" none) ++ reportSteps (paidReport 1 "v1" (some 100)))

theorem payment_accounted_twice :
    ¬∀ (run : HandoffRun) (steps : List HandoffStep), NewRun run → Accounted (run.run steps) := by
  intro h
  have hrun : newRun.run polledTwice = unpricedRun.run (reportSteps (paidReport 1 "v1" (some 100))) := by
    rw [polledTwice, run_append, run_append, run_linkSteps, run_unpriced]
  have horder : (newRun.run polledTwice).desk.providerOrder = some "v1" := by
    rw [hrun]
    decide +kernel
  have hrow : (newRun.run polledTwice).desk.unordered "v1" = 1 := by
    rw [hrun]
    decide +kernel
  have hpaid : "v1" ∈ (newRun.run polledTwice).paid := by
    rw [hrun]
    decide +kernel
  rcases (h newRun polledTwice newRun_new).once "v1" hpaid with ⟨_, hnone⟩ | ⟨hne, _⟩
  · rw [hrow] at hnone
    cases hnone
  · exact hne horder

end Examples

end AgenticOrg.Commerce.Handoff
