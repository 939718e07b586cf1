import AgenticOrg.Commerce.Checkout.Charges

namespace AgenticOrg.Commerce

open Tables

section Invariants

-- A consumed decision was for this amount.
def Checkout.Authorises (checkout : Checkout) (d : ℕ) (amount : ℤ) (currency : String) : Prop :=
  ∃ payload, (d, payload) ∈ checkout.consumed ∧ payload.content.total = amount ∧ payload.content.currency = currency

def Checkout.CapturedFor (checkout : Checkout) (d : ℕ) : Prop :=
  ∃ row ∈ checkout.journal.rows, row.operation = .capture ∧ row.phase = .succeeded ∧ row.decisionId = d

structure OrderInvariant (checkout : Checkout) : Prop where
  unedited : ∀ d payload, (d, payload) ∈ checkout.consumed → editedSince d checkout.trace = false →
    checkout.session.content = payload.content
  executions : ∀ execution ∈ checkout.executions,
    checkout.Authorises execution.decisionId execution.amount execution.currency
  executed : ∀ execution ∈ checkout.executions, execution.stage.captured = true →
    checkout.CapturedFor execution.decisionId
  rows : ∀ row ∈ checkout.journal.rows, row.reference = .order row.decisionId ∧
    checkout.Authorises row.decisionId row.amountMinorUnits row.currency
  reconciles : ∀ reconcile ∈ checkout.reconciles,
    checkout.Authorises reconcile.decisionId reconcile.amount reconcile.currency
  reconciled : ∀ reconcile ∈ checkout.reconciles, reconcile.stage = .apply .captured →
    checkout.CapturedFor reconcile.decisionId
  order : OrderMatches checkout

theorem NewCheckout.orderInvariant (checkout : Checkout) (h : NewCheckout checkout) : OrderInvariant checkout := by
  refine
    { unedited := ?_, executions := ?_, executed := ?_, rows := ?_, reconciles := ?_, reconciled := ?_, order := ?_ }
  all_goals simp [h.consumed, h.executions, h.journal, h.reconciles, h.order, OrderMatches]

theorem has_capturedFor (checkout : Checkout) (d : ℕ) (h : OrderInvariant checkout)
    (hhas : checkout.journal.has (.order d) .capture .succeeded = true) : checkout.CapturedFor d := by
  obtain ⟨row, hr, href, hop, hph⟩ := (Journal.has_iff _ _ _ _).mp hhas
  refine ⟨row, hr, hop, hph, ?_⟩
  have hrow := (h.rows row hr).1
  rw [href] at hrow
  cases hrow
  rfl

theorem authorises_upper (checkout : Checkout) (d : ℕ) (amount : ℤ) (currency : String)
    (h : checkout.Authorises d amount currency) : currency.toUpper = currency := by
  obtain ⟨payload, _, _, rfl⟩ := h
  exact payload.content.upper

-- A row more in the journal, of an amount that was authorised.
theorem OrderInvariant.journalled (checkout : Checkout) (journal : Journal) (row : JournalEntry)
    (h : OrderInvariant checkout) (hrows : journal.rows = checkout.journal.rows ++ [row])
    (href : row.reference = .order row.decisionId)
    (hauth : checkout.Authorises row.decisionId row.amountMinorUnits row.currency) :
    OrderInvariant { checkout with journal } := by
  have hold : ∀ old ∈ checkout.journal.rows, old ∈ journal.rows := by
    intro old ho
    rw [hrows]
    exact List.mem_append_left _ ho
  have hcaptured : ∀ d, checkout.CapturedFor d → Checkout.CapturedFor { checkout with journal } d := by
    rintro d ⟨old, ho, hrest⟩
    exact ⟨old, hold old ho, hrest⟩
  refine { h with executed := ?_, rows := ?_, reconciled := ?_, order := ?_ }
  · exact fun execution he hs => hcaptured _ (h.executed execution he hs)
  · intro old ho
    have hmem : old ∈ checkout.journal.rows ∨ old = row := by
      rwa [hrows, List.mem_append, List.mem_singleton] at ho
    rcases hmem with ho | rfl
    · exact h.rows old ho
    · exact ⟨href, hauth⟩
  · exact fun reconcile hr hs => hcaptured _ (h.reconciled reconcile hr hs)
  · intro order ho
    obtain ⟨⟨old, hr, hrest⟩, hpayload⟩ := h.order order ho
    exact ⟨⟨old, hold old hr, hrest⟩, hpayload⟩

theorem OrderInvariant.setExecution (checkout : Checkout) (execution : Execution) (stage : ExecutionStage)
    (h : OrderInvariant checkout) (he : execution ∈ checkout.executions)
    (hcaptured : stage.captured = true → checkout.CapturedFor execution.decisionId) :
    OrderInvariant (checkout.setExecution execution stage) := by
  refine { h with executions := ?_, executed := ?_ }
  · intro other ho
    rcases mem_setExecution checkout execution other stage ho with ho | rfl
    · exact h.executions other ho
    · exact h.executions execution he
  · intro other ho hs
    rcases mem_setExecution checkout execution other stage ho with ho | rfl
    · exact h.executed other ho hs
    · exact hcaptured hs

theorem OrderInvariant.setReconcile (checkout : Checkout) (index : ℕ) (reconcile : Reconcile)
    (stage : ReconcileStage) (h : OrderInvariant checkout) (hr : reconcile ∈ checkout.reconciles)
    (hcaptured : stage = .apply .captured → checkout.CapturedFor reconcile.decisionId) :
    OrderInvariant (checkout.setReconcile index reconcile stage) := by
  refine { h with reconciles := ?_, reconciled := ?_ }
  · intro other ho
    rcases mem_setReconcile checkout index reconcile other stage ho with ho | rfl
    · exact h.reconciles other ho
    · exact h.reconciles reconcile hr
  · intro other ho hs
    rcases mem_setReconcile checkout index reconcile other stage ho with ho | rfl
    · exact h.reconciled other ho hs
    · exact hcaptured hs

theorem OrderInvariant.setStatus (checkout : Checkout) (status : CheckoutStatus) (h : OrderInvariant checkout) :
    OrderInvariant (checkout.setStatus status) := { h with }

-- An event that is neither an admission nor an edit.
theorem OrderInvariant.traced (checkout : Checkout) (event : CheckoutEvent) (h : OrderInvariant checkout)
    (hevent : ∀ d, editedSince d (event :: checkout.trace) = editedSince d checkout.trace) :
    OrderInvariant { checkout with trace := event :: checkout.trace } := by
  refine { h with unedited := ?_ }
  intro d payload hc hu
  exact h.unedited d payload hc ((hevent d).symm.trans hu)

theorem OrderInvariant.completeIntoOrder (checkout : Checkout) (d : ℕ) (providerOrder : String)
    (h : OrderInvariant checkout) (hcaptured : checkout.CapturedFor d)
    (hunedited : editedSince d checkout.trace = false) :
    OrderInvariant ((checkout.completeIntoOrder d providerOrder).getD checkout) := by
  unfold Checkout.completeIntoOrder
  split
  · exact h
  · refine { h with order := ?_ }
    obtain ⟨row, hr, hop, hph, hd⟩ := hcaptured
    obtain ⟨_, payload, hp, htotal, hcurrency⟩ := h.rows row hr
    rw [hd] at hp
    have hcontent := h.unedited d payload hp hunedited
    intro order ho
    cases ho
    refine ⟨⟨row, hr, hop, hph, hd, ?_, ?_⟩, payload, hp, ?_⟩
    · rw [hcontent, htotal]
    · rw [hcontent, hcurrency]
    · rw [hcontent]

end Invariants

section Requests

theorem OrderInvariant.admitted (checkout : Checkout) (d : ℕ) (expired : Bool) (problem : Option String)
    (h : OrderInvariant checkout) (ha : checkout.admits d expired = true) :
    OrderInvariant (checkout.admitted d problem) := by
  obtain ⟨_, hfresh⟩ := admits_iff checkout d expired ha
  have hauth : ∀ d' amount currency, checkout.Authorises d' amount currency →
      (checkout.admitted d problem).Authorises d' amount currency := by
    rintro d' amount currency ⟨payload, hp, hrest⟩
    exact ⟨payload, List.mem_cons_of_mem _ hp, hrest⟩
  have hmem : ∀ execution ∈ (checkout.admitted d problem).executions, execution ∈ checkout.executions ∨
      execution = { decisionId := d, amount := checkout.session.content.total
                    currency := checkout.session.content.currency
                    stage := if problem.isSome then paymentFailed else .createOrder } := by
    intro execution he
    rcases List.mem_append.mp he with he | he
    · exact .inl he
    · exact .inr (List.mem_singleton.mp he)
  refine
    { unedited := ?_, executions := ?_, executed := ?_, rows := ?_, reconciles := ?_
      reconciled := h.reconciled, order := ?_ }
  · intro d' payload hp hu
    rcases List.mem_cons.mp hp with hp | hp
    · cases hp
      rfl
    · have hne : d ≠ d' := by
        rintro rfl
        exact hfresh (List.mem_map.mpr ⟨_, hp, rfl⟩)
      have hrest : editedSince d' checkout.trace = false := by
        rw [← hu]
        exact (if_neg hne).symm
      exact h.unedited d' payload hp hrest
  · intro execution he
    rcases hmem execution he with he | rfl
    · exact hauth _ _ _ (h.executions execution he)
    · exact ⟨_, List.mem_cons_self, rfl, rfl⟩
  · intro execution he hs
    rcases hmem execution he with he | rfl
    · exact h.executed execution he hs
    · dsimp only at hs
      split_ifs at hs
      · cases hs
      · cases hs
  · exact fun row hr => ⟨(h.rows row hr).1, hauth _ _ _ (h.rows row hr).2⟩
  · exact fun reconcile hr => hauth _ _ _ (h.reconciles reconcile hr)
  · intro order ho
    obtain ⟨hrow, payload, hp, hitems⟩ := h.order order ho
    exact ⟨hrow, payload, List.mem_cons_of_mem _ hp, hitems⟩

theorem OrderInvariant.edit (checkout : Checkout) (content : Content) (status : CheckoutStatus)
    (h : OrderInvariant checkout) : OrderInvariant (checkout.edit content status) := by
  refine { h with unedited := ?_ }
  intro d payload _ hu
  cases hu

end Requests

section Calls

theorem paymentFailed_captured : paymentFailed.captured ≠ true := by decide

theorem OrderInvariant.authorisedRecord (checkout : Checkout) (execution : Execution) (operation : Operation)
    (phase : Phase) (providerRef : Option String) (h : OrderInvariant checkout)
    (he : execution ∈ checkout.executions) :
    checkout.Authorises (journalEntry (execution.record operation) phase providerRef).decisionId
      (journalEntry (execution.record operation) phase providerRef).amountMinorUnits
      (journalEntry (execution.record operation) phase providerRef).currency := by
  have hauth := h.executions execution he
  have hupper : (journalEntry (execution.record operation) phase providerRef).currency = execution.currency :=
    authorises_upper checkout _ _ _ hauth
  rw [hupper]
  exact hauth

theorem OrderInvariant.beginCall (checkout : Checkout) (execution : Execution) (operation : Operation)
    (sent : ExecutionStage) (h : OrderInvariant checkout) (he : execution ∈ checkout.executions)
    (hsent : sent.captured = false) : OrderInvariant (checkout.beginCall execution operation sent) := by
  unfold Checkout.beginCall
  cases hb : checkout.journal.begin (execution.record operation) with
  | none => exact h.setExecution checkout execution paymentFailed he fun hc => absurd hc paymentFailed_captured
  | some journal =>
      obtain ⟨hrows, _⟩ := Table.rows_insert? checkout.journal journal _ hb
      have hj := h.journalled checkout journal _ hrows rfl (h.authorisedRecord checkout execution _ _ _ he)
      refine hj.setExecution _ execution sent he fun hc => ?_
      rw [hsent] at hc
      cases hc

theorem OrderInvariant.finishCall (checkout : Checkout) (execution : Execution) (operation : Operation)
    (phase : Phase) (providerRef : Option String) (next : ExecutionStage) (h : OrderInvariant checkout)
    (he : execution ∈ checkout.executions)
    (hnext : next.captured = true → operation = .capture ∧ phase = .succeeded) :
    OrderInvariant (checkout.finishCall execution operation phase providerRef next) := by
  unfold Checkout.finishCall
  cases hf : checkout.journal.finish (execution.record operation) phase providerRef with
  | none => exact h.setExecution checkout execution paymentFailed he fun hc => absurd hc paymentFailed_captured
  | some journal =>
      obtain ⟨hrows, _⟩ := Table.rows_insert? checkout.journal journal _ hf
      have hj := h.journalled checkout journal _ hrows rfl (h.authorisedRecord checkout execution _ _ _ he)
      refine hj.setExecution _ execution next he fun hc => ?_
      obtain ⟨hop, hph⟩ := hnext hc
      refine ⟨journalEntry (execution.record operation) phase providerRef, ?_, hop, hph, rfl⟩
      dsimp only
      rw [hrows]
      exact List.mem_append_right _ (List.mem_singleton_self _)

theorem orderStage_captured (orderId : Option String) : (orderStage orderId).captured = false := by
  unfold orderStage
  split_ifs <;> rfl

theorem paymentStage_captured (amount : ℤ) (providerOrder : String) (data : PaymentData) :
    (paymentStage amount providerOrder data).captured = false := by
  unfold paymentStage
  split_ifs <;> rfl

theorem OrderInvariant.execute (checkout : Checkout) (execution : Execution) (answer : ProviderAnswer)
    (h : OrderInvariant checkout) (he : execution ∈ checkout.executions) :
    OrderInvariant (checkout.execute execution answer) := by
  have hbegin := h.beginCall checkout execution
  have hfinish : ∀ operation phase providerRef (next : ExecutionStage), next.captured = false →
      OrderInvariant (checkout.finishCall execution operation phase providerRef next) := by
    intro operation phase providerRef next hn
    refine h.finishCall checkout execution operation phase providerRef next he fun hc => ?_
    rw [hn] at hc
    cases hc
  unfold Checkout.execute
  split
  · exact hbegin _ _ he rfl
  · exact hfinish _ _ _ _ rfl
  · exact hfinish _ _ _ _ rfl
  · exact hfinish _ _ _ _ (orderStage_captured _)
  · exact hbegin _ _ he rfl
  · exact hfinish _ _ _ _ rfl
  · exact hfinish _ _ _ _ rfl
  · exact hfinish _ _ _ _ (paymentStage_captured _ _ _)
  · exact hbegin _ _ he rfl
  · refine (h.setExecution checkout execution _ he ?_).traced _ _ fun d => rfl
    exact fun hc => Bool.noConfusion hc
  · split
    · exact h
    · refine h.finishCall checkout execution _ _ _ _ he fun hc => ⟨rfl, ?_⟩
      split_ifs at hc with hp
      · exact hp
      · exact absurd hc paymentFailed_captured
  · exact h

theorem OrderInvariant.apply (checkout : Checkout) (d : ℕ) (presentation : Presentation)
    (h : OrderInvariant checkout) (hu : (CheckoutStep.apply d presentation).Unedited checkout) :
    OrderInvariant (checkout.step (.apply d presentation)) := by
  unfold Checkout.step
  dsimp only
  cases hf : checkout.executions.find? (·.decisionId = d) with
  | none => exact h
  | some execution =>
      have he := List.mem_of_find?_eq_some hf
      have hd : execution.decisionId = d := by simpa using List.find?_some hf
      have htaken : OrderInvariant
          { checkout with executions := checkout.executions.filter (·.decisionId ≠ d) } := by
        refine { h with executions := ?_, executed := ?_ }
        · exact fun other ho => h.executions other (List.mem_filter.mp ho).1
        · exact fun other ho => h.executed other (List.mem_filter.mp ho).1
      dsimp only
      split
      · rename_i result hstage
        unfold Checkout.applyExecution
        split
        · rename_i providerOrder
          have hcaptured : execution.stage.captured = true := by
            rw [hstage]
            rfl
          have hdone : checkout.CapturedFor d := hd ▸ h.executed execution he hcaptured
          exact htaken.completeIntoOrder _ d providerOrder hdone (hu execution he hd hcaptured)
        · exact htaken.setStatus _ _
        · exact htaken.setStatus _ _
      · exact h

end Calls

section Events

theorem OrderInvariant.startReconcile (checkout : Checkout) (created : JournalEntry) (orderId : String)
    (stage : ReconcileStage) (h : OrderInvariant checkout) (hc : created ∈ checkout.journal.rows)
    (hcaptured : stage = .apply .captured → checkout.CapturedFor created.decisionId) :
    OrderInvariant (checkout.startReconcile created orderId stage) := by
  refine { h with reconciles := ?_, reconciled := ?_ }
  · intro reconcile hr
    rcases mem_startReconcile checkout created orderId stage reconcile hr with hr | rfl
    · exact h.reconciles reconcile hr
    · exact (h.rows created hc).2
  · intro reconcile hr hs
    rcases mem_startReconcile checkout created orderId stage reconcile hr with hr | rfl
    · exact h.reconciled reconcile hr hs
    · exact hcaptured hs

-- An event's outcome is in the journal once it is recorded.
theorem OrderInvariant.recordOnce (checkout : Checkout) (created : JournalEntry) (operation : Operation)
    (phase : Phase) (providerRef : Option String) (h : OrderInvariant checkout)
    (hc : created ∈ checkout.journal.rows) :
    OrderInvariant { checkout with
      journal := checkout.journal.recordOnce (createdRecord created operation) phase providerRef } ∧
    created ∈ (checkout.journal.recordOnce (createdRecord created operation) phase providerRef).rows ∧
    (checkout.journal.recordOnce (createdRecord created operation) phase providerRef).has created.reference
      operation phase = true := by
  obtain ⟨href, hauth⟩ := h.rows created hc
  rcases recordOnce_cases checkout.journal (createdRecord created operation) phase providerRef with ⟨he, hh⟩ | he
  · rw [he]
    exact ⟨h, hc, hh⟩
  · refine ⟨h.journalled checkout _ _ he href hauth, ?_, ?_⟩
    · rw [he]
      exact List.mem_append_left _ hc
    · refine (Journal.has_iff _ _ _ _).mpr ⟨journalEntry (createdRecord created operation) phase providerRef, ?_,
        rfl, rfl, rfl⟩
      rw [he]
      exact List.mem_append_right _ (List.mem_singleton_self _)

theorem OrderInvariant.receive (checkout : Checkout) (created : JournalEntry) (orderId : String)
    (status : PaymentStatus) (amount : Option ℤ) (credentials : Bool) (h : OrderInvariant checkout)
    (hc : created ∈ checkout.journal.rows) :
    OrderInvariant (checkout.receive created orderId status amount credentials) := by
  have href := (h.rows created hc).1
  unfold Checkout.receive
  cases status with
  | captured =>
      obtain ⟨hrecorded, hmem, hhas⟩ := h.recordOnce checkout created .capture .succeeded (some orderId) hc
      rw [href] at hhas
      exact hrecorded.startReconcile _ created orderId _ hmem fun _ => has_capturedFor _ _ hrecorded hhas
  | authorized =>
      dsimp only
      split_ifs with hhas
      · rw [href] at hhas
        exact h.startReconcile checkout created orderId _ hc fun _ => has_capturedFor checkout _ h hhas
      · exact h
      · exact h
      · exact h
      · exact h.startReconcile checkout created orderId _ hc fun hs => ReconcileStage.noConfusion hs
  | failed =>
      obtain ⟨hrecorded, hmem, _⟩ := h.recordOnce checkout created .createPayment .failed (some orderId) hc
      refine hrecorded.startReconcile _ created orderId _ hmem fun hs => ?_
      cases hs
  | pending => exact h

theorem OrderInvariant.reconcileExecution (checkout : Checkout) (d : ℕ) (providerOrder : String)
    (outcome : Outcome) (h : OrderInvariant checkout)
    (hcaptured : outcome = .captured → checkout.CapturedFor d ∧ editedSince d checkout.trace = false) :
    OrderInvariant (checkout.reconcileExecution d providerOrder outcome) := by
  unfold Checkout.reconcileExecution
  split_ifs
  · exact h
  · exact h
  · cases outcome with
    | captured => exact h.completeIntoOrder checkout d providerOrder (hcaptured rfl).1 (hcaptured rfl).2
    | failed => exact h.setStatus checkout _

theorem OrderInvariant.reconcile (checkout : Checkout) (index : ℕ) (reconcile : Reconcile)
    (answer : ProviderAnswer) (h : OrderInvariant checkout)
    (hget : checkout.reconciles[index]? = some reconcile)
    (hu : reconcile.stage = .apply .captured → editedSince reconcile.decisionId checkout.trace = false) :
    OrderInvariant (checkout.reconcile index reconcile answer) := by
  have hr : reconcile ∈ checkout.reconciles := List.mem_of_getElem? hget
  have hauth := h.reconciles reconcile hr
  unfold Checkout.reconcile
  split
  · cases hb : checkout.journal.begin (reconcile.record .capture) with
    | none => exact h.setReconcile checkout index reconcile _ hr fun hs => ReconcileStage.noConfusion hs
    | some journal =>
        obtain ⟨hrows, _⟩ := Table.rows_insert? checkout.journal journal _ hb
        have hj := h.journalled checkout journal _ hrows rfl hauth
        exact hj.setReconcile _ index reconcile _ hr fun hs => ReconcileStage.noConfusion hs
  · refine (h.setReconcile checkout index reconcile _ hr ?_).traced _ _ fun d => rfl
    exact fun hs => ReconcileStage.noConfusion hs
  · split
    · exact h
    · rename_i phase hphase
      cases hf : checkout.journal.finish (reconcile.record .capture) phase (some reconcile.providerOrder) with
      | none => exact h.setReconcile checkout index reconcile _ hr fun hs => ReconcileStage.noConfusion hs
      | some journal =>
          obtain ⟨hrows, _⟩ := Table.rows_insert? checkout.journal journal _ hf
          have hj := h.journalled checkout journal _ hrows rfl hauth
          refine hj.setReconcile _ index reconcile _ hr fun hs => ?_
          split_ifs at hs with hp
          refine ⟨journalEntry (reconcile.record .capture) phase (some reconcile.providerOrder), ?_, rfl, hp, rfl⟩
          dsimp only
          rw [hrows]
          exact List.mem_append_right _ (List.mem_singleton_self _)
  · rename_i outcome hstage
    have hexecution := h.reconcileExecution checkout reconcile.decisionId reconcile.providerOrder outcome
      fun ho => ⟨h.reconciled reconcile hr (ho ▸ hstage), hu (ho ▸ hstage)⟩
    refine hexecution.setReconcile _ index reconcile _ ?_ fun hs => ReconcileStage.noConfusion hs
    rw [reconcileExecution_reconciles]
    exact hr
  · exact h

end Events

section Runs

theorem OrderInvariant.step (checkout : Checkout) (step : CheckoutStep) (h : OrderInvariant checkout)
    (hu : step.Unedited checkout) : OrderInvariant (checkout.step step) := by
  cases step with
  | complete d expired problem =>
      unfold Checkout.step
      dsimp only
      split_ifs with ha
      · exact h.admitted checkout d expired problem ha
      · exact h
  | recheck expired content evaluated =>
      unfold Checkout.step
      dsimp only
      split_ifs
      · exact h.edit checkout content _
      · exact h
  | afaStep expired evaluated =>
      unfold Checkout.step
      dsimp only
      split_ifs
      · exact h.setStatus checkout _
      · exact h
  | update expired content evaluated =>
      unfold Checkout.step
      dsimp only
      split_ifs
      · exact h
      · exact h.edit checkout content _
  | cancel =>
      unfold Checkout.step
      dsimp only
      split_ifs
      · exact (h.setStatus checkout .canceled).traced _ _ fun d => rfl
      · exact h
  | execute d answer =>
      unfold Checkout.step
      dsimp only
      split
      · rename_i execution hf
        exact h.execute checkout execution answer (List.mem_of_find?_eq_some hf)
      · exact h
  | apply d presentation => exact h.apply checkout d presentation hu
  | event d orderId status amount credentials =>
      unfold Checkout.step
      dsimp only
      split
      · rename_i created hcreated
        have hmem := (created_row checkout d orderId created hcreated).1
        exact h.receive checkout created orderId status amount credentials hmem
      · exact h
  | reconcile index answer =>
      unfold Checkout.step
      dsimp only
      split
      · rename_i reconcile hget
        exact h.reconcile checkout index reconcile answer hget (hu reconcile hget)
      · exact h

theorem OrderInvariant.run (checkout : Checkout) (steps : List CheckoutStep) (h : OrderInvariant checkout)
    (hu : UneditedAlong checkout steps) : OrderInvariant (checkout.run steps) := by
  induction steps generalizing checkout with
  | nil => exact h
  | cons step rest ih => exact ih (checkout.step step) (h.step checkout step hu.1) hu.2

-- An order is for what was captured under its decision and for what that decision authorised.
theorem order_matches_capture (checkout : Checkout) (steps : List CheckoutStep) (hnew : NewCheckout checkout)
    (hu : UneditedAlong checkout steps) : OrderMatches (checkout.run steps) :=
  ((hnew.orderInvariant checkout).run checkout steps hu).order

end Runs

section Examples

def pendingPayment : PaymentData := ⟨.pending, false, none⟩

-- A pending payment is captured later and the order made from the event.
def capturedLate : List CheckoutStep :=
  attempt 1 "v1" pendingPayment ++ [.apply 1 .action, .event 1 "v1" .captured none true, .reconcile 0 .refused]

theorem order_matches_capture_late :
    UneditedAlong readyCheckout capturedLate ∧ OrderMatches (readyCheckout.run capturedLate) ∧
      (readyCheckout.run capturedLate).order.isSome = true := by
  have hunedited : UneditedAlong readyCheckout capturedLate := by decide +kernel
  exact ⟨hunedited, order_matches_capture readyCheckout capturedLate readyCheckout_new hunedited,
    by decide +kernel⟩

-- The cart is changed before the event arrives.
def updatedBetween : List CheckoutStep :=
  attempt 1 "v1" pendingPayment ++
    [.apply 1 .action, .update false (rupees 200) .readyForComplete, .event 1 "v1" .captured none true,
     .reconcile 0 .refused]

theorem order_of_updated_cart :
    ¬∀ (checkout : Checkout) (steps : List CheckoutStep), NewCheckout checkout →
      OrderMatches (checkout.run steps) := by
  intro h
  have hmatch := h readyCheckout updatedBetween readyCheckout_new
  obtain ⟨order, ho⟩ : ∃ order, (readyCheckout.run updatedBetween).order = some order ∧
      order.totalMinorUnits = 200 := ⟨⟨1, 200, "INR", (rupees 200).lineItems, some "v1"⟩, by decide +kernel⟩
  obtain ⟨⟨row, hr, hop, hph, _, htotal, _⟩, _⟩ := hmatch order ho.1
  have hcaptured : ∀ row ∈ (readyCheckout.run updatedBetween).journal.rows, row.operation = .capture →
      row.phase = .succeeded → row.amountMinorUnits = 100 := by decide +kernel
  have hamount := hcaptured row hr hop hph
  rw [htotal, ho.2] at hamount
  cases hamount

end Examples

end AgenticOrg.Commerce
