import AgenticOrg.Commerce.Checkout
import AgenticOrg.Commerce.Payments.Theorems

namespace AgenticOrg.Commerce

open Tables

section Traces

def admittedOf : CheckoutEvent → Option ℕ
  | .admitted decisionId => some decisionId
  | _ => none

-- The decisions admitted, the newest first.
def admissions (trace : List CheckoutEvent) : List ℕ := trace.filterMap admittedOf

theorem mem_admissions (trace : List CheckoutEvent) (d : ℕ) (h : .admitted d ∈ trace) : d ∈ admissions trace :=
  List.mem_filterMap.mpr ⟨_, h, rfl⟩

-- Nothing was admitted after the decision that was admitted last.
theorem no_later_admission (trace later earlier : List CheckoutEvent) (d d' : ℕ) (hd : (admissions trace).Nodup)
    (hlast : (admissions trace).head? = some d) (ht : trace = later ++ .admitted d :: earlier) :
    .admitted d' ∉ later := by
  intro hm
  have hsplit : admissions trace = admissions later ++ d :: admissions earlier := by
    rw [ht, admissions, List.filterMap_append]
    rfl
  have hmem := mem_admissions later d' hm
  cases hl : admissions later with
  | nil =>
      rw [hl] at hmem
      cases hmem
  | cons first rest =>
      rw [hsplit, hl, List.cons_append, List.head?_cons, Option.some.injEq] at hlast
      rw [hsplit, hl, List.cons_append, List.nodup_cons, hlast] at hd
      exact hd.1 (List.mem_append_right _ List.mem_cons_self)

def Live (trace : List CheckoutEvent) : Prop :=
  ∀ after before d, trace = after ++ .captureSent d :: before → .canceled ∉ before ∧
    ∀ later earlier, before = later ++ .admitted d :: earlier → ∀ d', .admitted d' ∉ later

theorem Live.cons (trace : List CheckoutEvent) (event : CheckoutEvent) (h : Live trace)
    (hnew : ∀ d, event = .captureSent d → .canceled ∉ trace ∧
      ∀ later earlier, trace = later ++ .admitted d :: earlier → ∀ d', .admitted d' ∉ later) :
    Live (event :: trace) := by
  intro after before d he
  cases after with
  | nil =>
      rw [List.nil_append, List.cons.injEq] at he
      rw [← he.2]
      exact hnew d he.1
  | cons first rest =>
      rw [List.cons_append, List.cons.injEq] at he
      exact h rest before d he.2

end Traces

section Lists

variable (checkout : Checkout)

theorem mem_setExecution (execution other : Execution) (stage : ExecutionStage)
    (h : other ∈ (checkout.setExecution execution stage).executions) :
    other ∈ checkout.executions ∨ other = { execution with stage } := by
  obtain ⟨old, hold, rfl⟩ := List.mem_map.mp h
  split_ifs
  · exact .inr rfl
  · exact .inl hold

theorem mem_setReconcile (index : ℕ) (reconcile other : Reconcile) (stage : ReconcileStage)
    (h : other ∈ (checkout.setReconcile index reconcile stage).reconciles) :
    other ∈ checkout.reconciles ∨ other = { reconcile with stage } :=
  List.mem_or_eq_of_mem_set h

theorem mem_startReconcile (created : JournalEntry) (orderId : String) (stage : ReconcileStage)
    (reconcile : Reconcile) (h : reconcile ∈ (checkout.startReconcile created orderId stage).reconciles) :
    reconcile ∈ checkout.reconciles ∨
      reconcile = ⟨created.decisionId, orderId, created.amountMinorUnits, created.currency, stage⟩ := by
  rcases List.mem_append.mp h with h | h
  · exact .inl h
  · exact .inr (List.mem_singleton.mp h)

end Lists

section Invariants

def Checkout.decisions (checkout : Checkout) : List ℕ := checkout.consumed.map (·.1)

structure ChargeInvariant (checkout : Checkout) : Prop where
  admitted : admissions checkout.trace = checkout.decisions
  distinct : checkout.decisions.Nodup
  current : checkout.session.decisionId = checkout.decisions.head?
  single : checkout.executions.length ≤ 1
  running : ∀ execution ∈ checkout.executions, checkout.session.decisionId = some execution.decisionId ∧
    (checkout.session.status = .completeInProgress ∨ checkout.session.status = .completed)
  rows : ∀ row ∈ checkout.journal.rows, row.reference = .order row.decisionId ∧
    row.decisionId ∈ checkout.decisions
  reconciled : ∀ reconcile ∈ checkout.reconciles, reconcile.decisionId ∈ checkout.decisions
  canceled : .canceled ∈ checkout.trace → checkout.session.status = .canceled
  capturing : ∀ reconcile ∈ checkout.reconciles, reconcile.aboutToCapture = true →
    checkout.session.decisionId = some reconcile.decisionId ∧ checkout.session.status ≠ .canceled
  failing : ∀ reconcile ∈ checkout.reconciles, reconcile.stage = .apply .failed →
    ∀ execution ∈ checkout.executions, execution.decisionId ≠ reconcile.decisionId
  begun : ∀ row ∈ checkout.journal.rows, row.operation = .capture → row.phase = .requested →
    checkout.journal.has row.reference .capture .failed = true ∨
      checkout.session.decisionId = some row.decisionId
  executing : ∀ execution ∈ checkout.executions, ∀ providerOrder, execution.stage = .captureBegun providerOrder →
    checkout.journal.has (.order execution.decisionId) .capture .requested = true
  reconciling : ∀ reconcile ∈ checkout.reconciles, reconcile.stage = .captureBegun →
    checkout.journal.has (.order reconcile.decisionId) .capture .requested = true
  sent : ∀ d, .captureSent d ∈ checkout.trace → checkout.journal.has (.order d) .capture .requested = true
  live : Live checkout.trace

theorem ChargeInvariant.chargedOnce (checkout : Checkout) (h : ChargeInvariant checkout) : ChargedOnce checkout := by
  have hcurrent : ∀ d, .captureSent d ∈ checkout.trace → checkout.captureFailed d = false →
      checkout.session.decisionId = some d := by
    intro d hs hf
    obtain ⟨row, hr, href, hop, hph⟩ := (Journal.has_iff _ _ _ _).mp (h.sent d hs)
    obtain ⟨hrow, _⟩ := h.rows row hr
    have hd : row.decisionId = d := by
      rw [href] at hrow
      cases hrow
      rfl
    rcases h.begun row hr hop hph with hfailed | hc
    · rw [href] at hfailed
      exact absurd (hfailed.symm.trans hf) (by decide)
    · rwa [hd] at hc
  refine ⟨?_, h.live⟩
  intro d d' hd hd' hf hf'
  have heq := (hcurrent d hd hf).symm.trans (hcurrent d' hd' hf')
  exact Option.some.inj heq

theorem NewCheckout.chargeInvariant (checkout : Checkout) (h : NewCheckout checkout) : ChargeInvariant checkout := by
  have hdecisions : checkout.decisions = [] := by
    rw [Checkout.decisions, h.consumed]
    rfl
  refine
    { admitted := ?_, distinct := ?_, current := ?_, single := ?_, running := ?_, rows := ?_, reconciled := ?_
      canceled := ?_, capturing := ?_, failing := ?_, begun := ?_, executing := ?_, reconciling := ?_, sent := ?_
      live := ?_ }
  all_goals simp [h.executions, h.reconciles, h.journal, h.trace, hdecisions, h.undecided, admissions]
  intro after before d he
  simp at he

-- Nothing runs while the session is open to a buyer's request.
theorem ChargeInvariant.idle (checkout : Checkout) (h : ChargeInvariant checkout)
    (hopen : checkout.session.status ≠ .completeInProgress) (hn : checkout.session.status ≠ .completed) :
    checkout.executions = [] := by
  rw [List.eq_nil_iff_forall_not_mem]
  intro execution he
  rcases (h.running execution he).2 with hs | hs
  · exact hopen hs
  · exact hn hs

-- A row more in the journal, of a decision that was consumed.
theorem ChargeInvariant.journalled (checkout : Checkout) (journal : Journal) (row : JournalEntry)
    (h : ChargeInvariant checkout) (hrows : journal.rows = checkout.journal.rows ++ [row])
    (href : row.reference = .order row.decisionId) (hd : row.decisionId ∈ checkout.decisions)
    (hcap : row.operation = .capture → row.phase = .requested →
      checkout.session.decisionId = some row.decisionId) :
    ChargeInvariant { checkout with journal } := by
  have hext : checkout.journal.Extends journal := by
    intro old ho
    rw [hrows]
    exact List.mem_append_left _ ho
  have hmem : ∀ old ∈ journal.rows, old ∈ checkout.journal.rows ∨ old = row := by
    intro old ho
    rwa [hrows, List.mem_append, List.mem_singleton] at ho
  refine { h with rows := ?_, begun := ?_, executing := ?_, reconciling := ?_, sent := ?_ }
  · intro old ho
    rcases hmem old ho with ho | rfl
    · exact h.rows old ho
    · exact ⟨href, hd⟩
  · intro old ho hop hph
    rcases hmem old ho with ho | rfl
    · exact (h.begun old ho hop hph).imp_left (hext.has _ _ _ _ _)
    · exact .inr (hcap hop hph)
  · exact fun execution he providerOrder hs => hext.has _ _ _ _ _ (h.executing execution he providerOrder hs)
  · exact fun reconcile hr hs => hext.has _ _ _ _ _ (h.reconciling reconcile hr hs)
  · exact fun d hs => hext.has _ _ _ _ _ (h.sent d hs)

-- An execution that goes on.
theorem ChargeInvariant.setExecution (checkout : Checkout) (execution : Execution) (stage : ExecutionStage)
    (h : ChargeInvariant checkout) (he : execution ∈ checkout.executions)
    (hbegun : ∀ providerOrder, stage = .captureBegun providerOrder →
      checkout.journal.has (.order execution.decisionId) .capture .requested = true) :
    ChargeInvariant (checkout.setExecution execution stage) := by
  refine { h with single := ?_, running := ?_, failing := ?_, executing := ?_ }
  · exact (List.length_map _).le.trans h.single
  · intro other ho
    rcases mem_setExecution checkout execution other stage ho with ho | rfl
    · exact h.running other ho
    · exact h.running execution he
  · intro reconcile hr hs other ho
    rcases mem_setExecution checkout execution other stage ho with ho | rfl
    · exact h.failing reconcile hr hs other ho
    · exact h.failing reconcile hr hs execution he
  · intro other ho providerOrder hs
    rcases mem_setExecution checkout execution other stage ho with ho | rfl
    · exact h.executing other ho providerOrder hs
    · exact hbegun providerOrder hs

-- A reconciliation that goes on.
theorem ChargeInvariant.setReconcile (checkout : Checkout) (index : ℕ) (reconcile : Reconcile)
    (stage : ReconcileStage) (h : ChargeInvariant checkout) (hget : checkout.reconciles[index]? = some reconcile)
    (hcap : Reconcile.aboutToCapture { reconcile with stage } = true → reconcile.aboutToCapture = true)
    (hfailed : stage ≠ .apply .failed)
    (hbegun : stage = .captureBegun →
      checkout.journal.has (.order reconcile.decisionId) .capture .requested = true) :
    ChargeInvariant (checkout.setReconcile index reconcile stage) := by
  have hr : reconcile ∈ checkout.reconciles := List.mem_of_getElem? hget
  refine { h with reconciled := ?_, capturing := ?_, failing := ?_, reconciling := ?_ }
  · intro other ho
    rcases mem_setReconcile checkout index reconcile other stage ho with ho | rfl
    · exact h.reconciled other ho
    · exact h.reconciled reconcile hr
  · intro other ho hc
    rcases mem_setReconcile checkout index reconcile other stage ho with ho | rfl
    · exact h.capturing other ho hc
    · exact h.capturing reconcile hr (hcap hc)
  · intro other ho hs
    rcases mem_setReconcile checkout index reconcile other stage ho with ho | rfl
    · exact h.failing other ho hs
    · exact absurd hs hfailed
  · intro other ho hs
    rcases mem_setReconcile checkout index reconcile other stage ho with ho | rfl
    · exact h.reconciling other ho hs
    · exact hbegun hs

-- A capture sent for the session's decision.
theorem ChargeInvariant.pushSent (checkout : Checkout) (d : ℕ) (h : ChargeInvariant checkout)
    (hd : checkout.session.decisionId = some d) (hs : checkout.session.status ≠ .canceled)
    (hr : checkout.journal.has (.order d) .capture .requested = true) :
    ChargeInvariant { checkout with trace := .captureSent d :: checkout.trace } := by
  have hcanceled : .canceled ∉ checkout.trace := fun hc => hs (h.canceled hc)
  refine { h with admitted := h.admitted, canceled := ?_, sent := ?_, live := ?_ }
  · intro hc
    rcases List.mem_cons.mp hc with hc | hc
    · cases hc
    · exact absurd hc hcanceled
  · intro other ho
    rcases List.mem_cons.mp ho with ho | ho
    · cases ho
      exact hr
    · exact h.sent other ho
  · refine h.live.cons _ _ ?_
    intro other he
    cases he
    refine ⟨hcanceled, fun later earlier ht d' => ?_⟩
    refine no_later_admission checkout.trace later earlier d d' ?_ ?_ ht
    · rw [h.admitted]
      exact h.distinct
    · rw [h.admitted, ← h.current, hd]

theorem ChargeInvariant.setStatus (checkout : Checkout) (status : CheckoutStatus) (h : ChargeInvariant checkout)
    (hrun : checkout.executions = [] ∨ status = .completeInProgress ∨ status = .completed)
    (hcanceled : .canceled ∈ checkout.trace → status = .canceled)
    (hcap : status = .canceled → ∀ reconcile ∈ checkout.reconciles, reconcile.aboutToCapture = false) :
    ChargeInvariant (checkout.setStatus status) := by
  refine { h with running := ?_, canceled := hcanceled, capturing := ?_ }
  · intro execution he
    rcases hrun with hnone | hs
    · have hempty : execution ∈ checkout.executions := he
      rw [hnone] at hempty
      cases hempty
    · exact ⟨(h.running execution he).1, hs⟩
  · intro reconcile hr hc
    refine ⟨(h.capturing reconcile hr hc).1, fun hs => ?_⟩
    rw [hcap hs reconcile hr] at hc
    cases hc

theorem ChargeInvariant.setOrder (checkout : Checkout) (order : Option CheckoutOrder) (h : ChargeInvariant checkout) :
    ChargeInvariant { checkout with order } := { h with }

end Invariants

section Requests

theorem admits_iff (checkout : Checkout) (d : ℕ) (expired : Bool) (h : checkout.admits d expired = true) :
    checkout.session.status = .readyForComplete ∧ d ∉ checkout.decisions := by
  unfold Checkout.admits at h
  simp only [Bool.and_eq_true, Bool.not_eq_true', decide_eq_true_eq] at h
  refine ⟨h.1.2, fun hm => ?_⟩
  have hc : (checkout.consumed.map (·.1)).contains d = true := List.contains_iff_mem.mpr hm
  rw [h.2] at hc
  cases hc

theorem ChargeInvariant.letIn (checkout : Checkout) (d : ℕ) (expired : Bool) (problem : Option String)
    (h : ChargeInvariant checkout) (ha : checkout.admits d expired = true)
    (hfailed : ∀ row ∈ checkout.journal.rows, row.operation = .capture → row.phase = .requested →
      checkout.journal.has row.reference .capture .failed = true)
    (hquiet : ∀ reconcile ∈ checkout.reconciles, reconcile.aboutToCapture = false) :
    ChargeInvariant (checkout.admitted d problem) := by
  obtain ⟨hready, hfresh⟩ := admits_iff checkout d expired ha
  have hidle := h.idle checkout (by rw [hready]; decide) (by rw [hready]; decide)
  have hexecutions : (checkout.admitted d problem).executions.length = 1 := by
    simp [Checkout.admitted, Checkout.setStatus, hidle]
  have hnew : ∀ execution ∈ (checkout.admitted d problem).executions, execution.decisionId = d ∧
      ∀ providerOrder, execution.stage ≠ .captureBegun providerOrder := by
    intro execution he
    simp only [Checkout.admitted, Checkout.setStatus, hidle, List.nil_append, List.mem_singleton] at he
    rw [he]
    refine ⟨rfl, fun providerOrder => ?_⟩
    dsimp only
    split_ifs
    · exact fun hs => ExecutionStage.noConfusion hs
    · exact fun hs => ExecutionStage.noConfusion hs
  have hdecisions : (checkout.admitted d problem).decisions = d :: checkout.decisions := rfl
  have hcanceled : .canceled ∉ checkout.trace := by
    intro hc
    have hs := h.canceled hc
    rw [hready] at hs
    cases hs
  refine
    { admitted := ?_, distinct := ?_, current := rfl, single := hexecutions.le, running := ?_, rows := ?_
      reconciled := ?_, canceled := ?_, capturing := ?_, failing := ?_, begun := ?_, executing := ?_
      reconciling := h.reconciling, sent := ?_, live := ?_ }
  · rw [hdecisions, ← h.admitted]
    rfl
  · rw [hdecisions]
    exact List.nodup_cons.mpr ⟨hfresh, h.distinct⟩
  · intro execution he
    rw [(hnew execution he).1]
    exact ⟨rfl, .inl rfl⟩
  · intro row hr
    obtain ⟨href, hd⟩ := h.rows row hr
    rw [hdecisions]
    exact ⟨href, List.mem_cons_of_mem _ hd⟩
  · intro reconcile hr
    rw [hdecisions]
    exact List.mem_cons_of_mem _ (h.reconciled reconcile hr)
  · intro hc
    rcases List.mem_cons.mp hc with hc | hc
    · cases hc
    · exact absurd hc hcanceled
  · intro reconcile hr hc
    rw [hquiet reconcile hr] at hc
    cases hc
  · intro reconcile hr _ execution he heq
    rw [(hnew execution he).1] at heq
    exact hfresh (heq ▸ h.reconciled reconcile hr)
  · exact fun row hr hop hph => .inl (hfailed row hr hop hph)
  · exact fun execution he providerOrder hs => absurd hs ((hnew execution he).2 providerOrder)
  · intro other ho
    rcases List.mem_cons.mp ho with ho | ho
    · cases ho
    · exact h.sent other ho
  · exact h.live.cons _ _ fun other he => by cases he

theorem evaluated_open (evaluated : Evaluated) : evaluated.status.frozen = false := by
  cases evaluated <;> rfl

-- The session is rewritten while nothing runs for it and it was not canceled.
theorem ChargeInvariant.reopened (checkout : Checkout) (evaluated : Evaluated) (h : ChargeInvariant checkout)
    (hopen : checkout.session.status.frozen = false) : ChargeInvariant (checkout.setStatus evaluated.status) := by
  have hstatus : checkout.session.status ≠ .completeInProgress ∧ checkout.session.status ≠ .completed ∧
      checkout.session.status ≠ .canceled := by
    refine ⟨?_, ?_, ?_⟩ <;> intro hs <;> rw [hs] at hopen <;> cases hopen
  refine h.setStatus checkout _ (.inl (h.idle checkout hstatus.1 hstatus.2.1)) ?_ ?_
  · exact fun hc => absurd (h.canceled hc) hstatus.2.2
  · intro hs
    have hfrozen := evaluated_open evaluated
    rw [hs] at hfrozen
    cases hfrozen

theorem ChargeInvariant.edit (checkout : Checkout) (content : Content) (evaluated : Evaluated)
    (h : ChargeInvariant checkout) (hopen : checkout.session.status.frozen = false) :
    ChargeInvariant (checkout.edit content evaluated.status) := by
  have hset := h.reopened checkout evaluated hopen
  refine { hset with canceled := ?_, sent := ?_, live := ?_ }
  · intro hc
    rcases List.mem_cons.mp hc with hc | hc
    · cases hc
    · exact hset.canceled hc
  · intro other ho
    rcases List.mem_cons.mp ho with ho | ho
    · cases ho
    · exact h.sent other ho
  · exact h.live.cons _ _ fun other he => by cases he

theorem ChargeInvariant.cancel (checkout : Checkout) (h : ChargeInvariant checkout)
    (hc : checkout.cancelable = true)
    (hquiet : ∀ reconcile ∈ checkout.reconciles, reconcile.aboutToCapture = false) :
    ChargeInvariant { checkout.setStatus .canceled with trace := .canceled :: checkout.trace } := by
  unfold Checkout.cancelable CheckoutStatus.terminal at hc
  simp only [Bool.and_eq_true, Bool.not_eq_true', Bool.or_eq_false_iff, decide_eq_false_iff_not,
    decide_eq_true_eq] at hc
  have hset := h.setStatus checkout .canceled (.inl (h.idle checkout hc.2 hc.1.1)) (fun _ => rfl) fun _ => hquiet
  refine { hset with canceled := fun _ => rfl, sent := ?_, live := ?_ }
  · intro other ho
    rcases List.mem_cons.mp ho with ho | ho
    · cases ho
    · exact h.sent other ho
  · exact h.live.cons _ _ fun other he => by cases he

end Requests

section Calls

theorem ChargeInvariant.beginCall (checkout : Checkout) (execution : Execution) (operation : Operation)
    (sent : ExecutionStage) (h : ChargeInvariant checkout) (he : execution ∈ checkout.executions)
    (hsent : ∀ providerOrder, sent = .captureBegun providerOrder → operation = .capture) :
    ChargeInvariant (checkout.beginCall execution operation sent) := by
  obtain ⟨hcurrent, _⟩ := h.running execution he
  have hconsumed : execution.decisionId ∈ checkout.decisions :=
    List.mem_of_mem_head? (h.current.symm.trans hcurrent)
  unfold Checkout.beginCall
  cases hb : checkout.journal.begin (execution.record operation) with
  | none =>
      exact h.setExecution checkout execution paymentFailed he fun _ hs => ExecutionStage.noConfusion hs
  | some journal =>
      obtain ⟨hrows, _⟩ := Table.rows_insert? checkout.journal journal _ hb
      have hj := h.journalled checkout journal _ hrows rfl hconsumed fun _ _ => hcurrent
      refine hj.setExecution _ execution sent he fun providerOrder hs => ?_
      refine (Journal.has_iff _ _ _ _).mpr ⟨journalEntry (execution.record operation) .requested none, ?_, rfl,
        hsent providerOrder hs, rfl⟩
      dsimp only
      rw [hrows]
      exact List.mem_append_right _ (List.mem_singleton_self _)

theorem ChargeInvariant.finishCall (checkout : Checkout) (execution : Execution) (operation : Operation)
    (phase : Phase) (providerRef : Option String) (next : ExecutionStage) (h : ChargeInvariant checkout)
    (he : execution ∈ checkout.executions) (hp : phase ≠ .requested)
    (hnext : ∀ providerOrder, next ≠ .captureBegun providerOrder) :
    ChargeInvariant (checkout.finishCall execution operation phase providerRef next) := by
  obtain ⟨hcurrent, _⟩ := h.running execution he
  have hconsumed : execution.decisionId ∈ checkout.decisions :=
    List.mem_of_mem_head? (h.current.symm.trans hcurrent)
  unfold Checkout.finishCall
  cases hf : checkout.journal.finish (execution.record operation) phase providerRef with
  | none =>
      exact h.setExecution checkout execution paymentFailed he fun _ hs => ExecutionStage.noConfusion hs
  | some journal =>
      obtain ⟨hrows, _⟩ := Table.rows_insert? checkout.journal journal _ hf
      have hj := h.journalled checkout journal _ hrows rfl hconsumed fun _ hph => absurd hph hp
      exact hj.setExecution _ execution next he fun providerOrder hs => absurd hs (hnext providerOrder)

theorem orderStage_ne (orderId : Option String) (providerOrder : String) :
    orderStage orderId ≠ .captureBegun providerOrder := by
  unfold orderStage
  split_ifs
  · exact fun hs => ExecutionStage.noConfusion hs
  · exact fun hs => ExecutionStage.noConfusion hs

theorem paymentStage_ne (amount : ℤ) (paid : String) (data : PaymentData) (providerOrder : String) :
    paymentStage amount paid data ≠ .captureBegun providerOrder := by
  unfold paymentStage
  split_ifs <;> exact fun hs => ExecutionStage.noConfusion hs

theorem capturePhase_ne (answer : ProviderAnswer) (phase : Phase) (h : capturePhase answer = some phase) :
    phase ≠ .requested := by
  unfold capturePhase at h
  split at h <;> cases h <;> exact fun hp => Phase.noConfusion hp

theorem ChargeInvariant.execute (checkout : Checkout) (execution : Execution) (answer : ProviderAnswer)
    (h : ChargeInvariant checkout) (he : execution ∈ checkout.executions) :
    ChargeInvariant (checkout.execute execution answer) := by
  unfold Checkout.execute
  split
  · exact h.beginCall checkout execution _ _ he fun _ hs => ExecutionStage.noConfusion hs
  · exact h.finishCall checkout execution _ _ _ _ he (by decide) fun _ hs => ExecutionStage.noConfusion hs
  · exact h.finishCall checkout execution _ _ _ _ he (by decide) fun _ hs => ExecutionStage.noConfusion hs
  · exact h.finishCall checkout execution _ _ _ _ he (by decide) (orderStage_ne _)
  · exact h.beginCall checkout execution _ _ he fun _ hs => ExecutionStage.noConfusion hs
  · exact h.finishCall checkout execution _ _ _ _ he (by decide) fun _ hs => ExecutionStage.noConfusion hs
  · exact h.finishCall checkout execution _ _ _ _ he (by decide) fun _ hs => ExecutionStage.noConfusion hs
  · exact h.finishCall checkout execution _ _ _ _ he (by decide) (paymentStage_ne _ _ _)
  · exact h.beginCall checkout execution _ _ he fun _ _ => rfl
  · rename_i _ _ providerOrder hstage
    obtain ⟨hcurrent, hstatus⟩ := h.running execution he
    have hset := h.setExecution checkout execution (.captureSent providerOrder) he
      fun _ hs => ExecutionStage.noConfusion hs
    refine hset.pushSent _ execution.decisionId hcurrent ?_ (h.executing execution he providerOrder hstage)
    intro hs
    rcases hstatus with hp | hp
    · exact absurd (hp.symm.trans hs) (by decide)
    · exact absurd (hp.symm.trans hs) (by decide)
  · split
    · exact h
    · rename_i phase hphase
      refine h.finishCall checkout execution _ _ _ _ he (capturePhase_ne _ phase hphase) fun providerOrder => ?_
      split_ifs
      · exact fun hs => ExecutionStage.noConfusion hs
      · exact fun hs => ExecutionStage.noConfusion hs
  · exact h

-- The execution is taken off the list before its result is applied.
theorem ChargeInvariant.taken (checkout : Checkout) (d : ℕ) (h : ChargeInvariant checkout) :
    ChargeInvariant { checkout with executions := checkout.executions.filter (·.decisionId ≠ d) } := by
  have hmem : ∀ execution ∈ checkout.executions.filter (·.decisionId ≠ d), execution ∈ checkout.executions :=
    fun execution he => (List.mem_filter.mp he).1
  refine { h with single := ?_, running := ?_, failing := ?_, executing := ?_ }
  · exact (List.length_filter_le _ _).trans h.single
  · exact fun execution he => h.running execution (hmem execution he)
  · exact fun reconcile hr hs execution he => h.failing reconcile hr hs execution (hmem execution he)
  · exact fun execution he => h.executing execution (hmem execution he)

theorem taken_nil (executions : List Execution) (execution : Execution) (hone : executions.length ≤ 1)
    (he : execution ∈ executions) : executions.filter (·.decisionId ≠ execution.decisionId) = [] := by
  rw [List.filter_eq_nil_iff]
  intro other ho
  have heq : other = execution := by
    match executions, hone, he, ho with
    | [_], _, he, ho => rw [List.mem_singleton.mp he, List.mem_singleton.mp ho]
  simp [heq]

-- The session completes, unless it has an order.
theorem ChargeInvariant.completeIntoOrder (checkout : Checkout) (d : ℕ) (providerOrder : String)
    (h : ChargeInvariant checkout) (hs : checkout.session.status ≠ .canceled) :
    ChargeInvariant ((checkout.completeIntoOrder d providerOrder).getD checkout) := by
  unfold Checkout.completeIntoOrder
  split
  · exact h
  · refine (h.setStatus checkout .completed (.inr (.inr rfl)) ?_ ?_).setOrder _ _
    · exact fun hc => absurd (h.canceled hc) hs
    · exact fun hc => CheckoutStatus.noConfusion hc

theorem ChargeInvariant.applyExecution (checkout : Checkout) (d : ℕ) (result : ExecutionResult)
    (presentation : Presentation) (h : ChargeInvariant checkout) (hidle : checkout.executions = [])
    (hs : checkout.session.status ≠ .canceled) :
    ChargeInvariant (checkout.applyExecution d result presentation) := by
  have hset : ∀ status : CheckoutStatus, status ≠ .canceled → ChargeInvariant (checkout.setStatus status) := by
    intro status hne
    refine h.setStatus checkout status (.inl hidle) ?_ ?_
    · exact fun hc => absurd (h.canceled hc) hs
    · exact fun hc => absurd hc hne
  unfold Checkout.applyExecution
  split
  · exact h.completeIntoOrder checkout d _ hs
  · exact hset _ (by cases presentation <;> decide)
  · exact hset _ (by decide)

end Calls

section Events

theorem created_row (checkout : Checkout) (d : ℕ) (orderId : String) (created : JournalEntry)
    (h : checkout.created d orderId = some created) :
    created ∈ checkout.journal.rows ∧ created.reference = .order d := by
  unfold Checkout.created at h
  rw [Option.filter_eq_some_iff] at h
  obtain ⟨hmem, hkey⟩ := checkout.journal.mem_of_find? _ created h.1
  exact ⟨hmem, congrArg (·.1) hkey⟩

theorem ChargeInvariant.startReconcile (checkout : Checkout) (created : JournalEntry) (orderId : String)
    (stage : ReconcileStage) (h : ChargeInvariant checkout) (hd : created.decisionId ∈ checkout.decisions)
    (hstage : stage ≠ .captureBegun)
    (hcap : stage = .capture → checkout.session.decisionId = some created.decisionId ∧
      checkout.session.status ≠ .canceled)
    (hfailed : stage = .apply .failed → ∀ execution ∈ checkout.executions,
      execution.decisionId ≠ created.decisionId) :
    ChargeInvariant (checkout.startReconcile created orderId stage) := by
  refine { h with reconciled := ?_, capturing := ?_, failing := ?_, reconciling := ?_ }
  · intro reconcile hr
    rcases mem_startReconcile checkout created orderId stage reconcile hr with hr | rfl
    · exact h.reconciled reconcile hr
    · exact hd
  · intro reconcile hr hc
    rcases mem_startReconcile checkout created orderId stage reconcile hr with hr | rfl
    · exact h.capturing reconcile hr hc
    · rw [Reconcile.aboutToCapture, Bool.or_eq_true, decide_eq_true_eq, decide_eq_true_eq] at hc
      exact hcap (hc.resolve_right hstage)
  · intro reconcile hr hs execution he
    rcases mem_startReconcile checkout created orderId stage reconcile hr with hr | rfl
    · exact h.failing reconcile hr hs execution he
    · exact hfailed hs execution he
  · intro reconcile hr hs
    rcases mem_startReconcile checkout created orderId stage reconcile hr with hr | rfl
    · exact h.reconciling reconcile hr hs
    · exact absurd hs hstage

-- An event's outcome is journalled once.
theorem ChargeInvariant.recordOnce (checkout : Checkout) (created : JournalEntry) (operation : Operation)
    (phase : Phase) (providerRef : Option String) (h : ChargeInvariant checkout)
    (hc : created ∈ checkout.journal.rows) (hp : phase ≠ .requested) :
    ChargeInvariant { checkout with
      journal := checkout.journal.recordOnce (createdRecord created operation) phase providerRef } := by
  obtain ⟨href, hd⟩ := h.rows created hc
  rcases recordOnce_cases checkout.journal (createdRecord created operation) phase providerRef with ⟨he, _⟩ | he
  · rw [he]
    exact h
  · exact h.journalled checkout _ _ he href hd fun _ hph => absurd hph hp

theorem ChargeInvariant.receive (checkout : Checkout) (d : ℕ) (created : JournalEntry) (orderId : String)
    (status : PaymentStatus) (amount : Option ℤ) (credentials : Bool) (h : ChargeInvariant checkout)
    (hc : created ∈ checkout.journal.rows) (href : created.reference = .order d)
    (hauth : status = .authorized → checkout.journal.has (.order d) .capture .requested = false →
      checkout.session.decisionId = some d ∧ checkout.session.status ≠ .canceled)
    (hfailed : status = .failed → ∀ execution ∈ checkout.executions, execution.decisionId ≠ d) :
    ChargeInvariant (checkout.receive created orderId status amount credentials) := by
  obtain ⟨hrow, hd⟩ := h.rows created hc
  have hdecision : created.decisionId = d := by
    rw [href] at hrow
    cases hrow
    rfl
  have hdone : ∀ (later : Checkout), ChargeInvariant later → created.decisionId ∈ later.decisions →
      ChargeInvariant (later.startReconcile created orderId (.apply .captured)) := by
    intro later hl hd
    refine hl.startReconcile later created orderId _ hd ?_ ?_ ?_
    · exact fun hs => ReconcileStage.noConfusion hs
    · exact fun hs => ReconcileStage.noConfusion hs
    · exact fun hs => by cases hs
  unfold Checkout.receive
  cases status with
  | captured => exact hdone _ (h.recordOnce checkout created _ _ _ hc (by decide)) hd
  | authorized =>
      dsimp only
      split_ifs with _ hbegun
      · exact hdone checkout h hd
      · exact h
      · exact h
      · exact h
      · refine h.startReconcile checkout created orderId .capture hd ?_ ?_ ?_
        · exact fun hs => ReconcileStage.noConfusion hs
        · rw [hdecision]
          rw [href, Bool.not_eq_true] at hbegun
          exact fun _ => hauth rfl hbegun
        · exact fun hs => ReconcileStage.noConfusion hs
  | failed =>
      refine (h.recordOnce checkout created _ _ _ hc (by decide)).startReconcile _ created orderId _ hd ?_ ?_ ?_
      · exact fun hs => ReconcileStage.noConfusion hs
      · exact fun hs => ReconcileStage.noConfusion hs
      · rw [hdecision]
        exact fun _ => hfailed rfl
  | pending => exact h

theorem ChargeInvariant.reconcileExecution (checkout : Checkout) (reconcile : Reconcile) (outcome : Outcome)
    (h : ChargeInvariant checkout) (hr : reconcile ∈ checkout.reconciles)
    (hstage : reconcile.stage = .apply outcome) :
    ChargeInvariant (checkout.reconcileExecution reconcile.decisionId reconcile.providerOrder outcome) := by
  unfold Checkout.reconcileExecution
  split_ifs with hdone hother
  · exact h
  · exact h
  · rw [not_or, not_not] at hother
    cases outcome with
    | captured => exact h.completeIntoOrder checkout _ _ hother.2
    | failed =>
        -- the execution that runs is the current decision's, and that one has been applied
        have hidle : checkout.executions = [] := by
          rw [List.eq_nil_iff_forall_not_mem]
          intro execution he
          have hsame := (h.running execution he).1.symm.trans hother.1
          exact h.failing reconcile hr hstage execution he (Option.some.inj hsame)
        refine h.setStatus checkout _ (.inl hidle) ?_ ?_
        · exact fun hc => absurd (h.canceled hc) hother.2
        · exact fun hs => CheckoutStatus.noConfusion hs

theorem reconcileExecution_reconciles (checkout : Checkout) (d : ℕ) (providerOrder : String) (outcome : Outcome) :
    (checkout.reconcileExecution d providerOrder outcome).reconciles = checkout.reconciles := by
  unfold Checkout.reconcileExecution
  split_ifs
  · rfl
  · rfl
  · cases outcome with
    | captured =>
        unfold Checkout.completeIntoOrder
        dsimp only
        split <;> rfl
    | failed => rfl

theorem ChargeInvariant.reconcile (checkout : Checkout) (index : ℕ) (reconcile : Reconcile)
    (answer : ProviderAnswer) (h : ChargeInvariant checkout)
    (hget : checkout.reconciles[index]? = some reconcile) :
    ChargeInvariant (checkout.reconcile index reconcile answer) := by
  have hr : reconcile ∈ checkout.reconciles := List.mem_of_getElem? hget
  have hd := h.reconciled reconcile hr
  have hclosed : ∀ (later : Checkout) (stage : ReconcileStage), ChargeInvariant later →
      later.reconciles = checkout.reconciles → (stage = .done ∨ stage = .captureSent ∨ stage = .apply .captured) →
      ChargeInvariant (later.setReconcile index reconcile stage) := by
    intro later stage hl heq hs
    refine hl.setReconcile later index reconcile stage (heq ▸ hget) ?_ ?_ ?_
    · rcases hs with rfl | rfl | rfl <;> exact fun hc => Bool.noConfusion hc
    · rcases hs with rfl | rfl | rfl <;> decide
    · rcases hs with rfl | rfl | rfl <;> exact fun hs => ReconcileStage.noConfusion hs
  unfold Checkout.reconcile
  split
  next hstage =>
    have hcap : reconcile.aboutToCapture = true := by
      rw [Reconcile.aboutToCapture, hstage]
      rfl
    obtain ⟨hcurrent, _⟩ := h.capturing reconcile hr hcap
    cases hb : checkout.journal.begin (reconcile.record .capture) with
    | none => exact hclosed checkout .done h rfl (.inl rfl)
    | some journal =>
        obtain ⟨hrows, _⟩ := Table.rows_insert? checkout.journal journal _ hb
        have hj := h.journalled checkout journal _ hrows rfl hd fun _ _ => hcurrent
        refine hj.setReconcile _ index reconcile .captureBegun hget (fun _ => hcap) (by decide) fun _ => ?_
        refine (Journal.has_iff _ _ _ _).mpr ⟨journalEntry (reconcile.record .capture) .requested none, ?_, rfl,
          rfl, rfl⟩
        dsimp only
        rw [hrows]
        exact List.mem_append_right _ (List.mem_singleton_self _)
  next hstage =>
    have hcap : reconcile.aboutToCapture = true := by
      rw [Reconcile.aboutToCapture, hstage]
      rfl
    obtain ⟨hcurrent, hs⟩ := h.capturing reconcile hr hcap
    have hset := hclosed checkout .captureSent h rfl (.inr (.inl rfl))
    exact hset.pushSent _ reconcile.decisionId hcurrent hs (h.reconciling reconcile hr hstage)
  next hstage =>
    split
    · exact h
    · rename_i phase hphase
      cases hf : checkout.journal.finish (reconcile.record .capture) phase (some reconcile.providerOrder) with
      | none => exact hclosed checkout .done h rfl (.inl rfl)
      | some journal =>
          obtain ⟨hrows, _⟩ := Table.rows_insert? checkout.journal journal _ hf
          have hj := h.journalled checkout journal _ hrows rfl hd
            fun _ hph => absurd hph (capturePhase_ne _ phase hphase)
          refine hclosed _ _ hj rfl ?_
          split_ifs
          · exact .inr (.inr rfl)
          · exact .inl rfl
  next outcome hstage =>
    exact hclosed _ .done (h.reconcileExecution checkout reconcile outcome hr hstage)
      (reconcileExecution_reconciles _ _ _ _) (.inl rfl)
  next => exact h

end Events

section Runs

theorem ChargeInvariant.apply (checkout : Checkout) (d : ℕ) (presentation : Presentation)
    (h : ChargeInvariant checkout) : ChargeInvariant (checkout.step (.apply d presentation)) := by
  unfold Checkout.step
  dsimp only
  cases hf : checkout.executions.find? (·.decisionId = d) with
  | none => exact h
  | some execution =>
      have he := List.mem_of_find?_eq_some hf
      have hd : execution.decisionId = d := by simpa using List.find?_some hf
      dsimp only
      split
      · refine (h.taken checkout d).applyExecution _ d _ presentation ?_ ?_
        · rw [← hd]
          exact taken_nil checkout.executions execution h.single he
        · intro hs
          rcases (h.running execution he).2 with hp | hp
          · exact absurd (hp.symm.trans hs) (by decide)
          · exact absurd (hp.symm.trans hs) (by decide)
      · exact h

theorem frozen_false (checkout : Checkout) (expired : Bool) (h : checkout.frozen expired = false) :
    checkout.session.status.frozen = false := by
  rw [Checkout.frozen, Bool.or_eq_false_iff] at h
  exact h.1

theorem ChargeInvariant.step (checkout : Checkout) (step : CheckoutStep) (h : ChargeInvariant checkout)
    (ho : step.Ordered checkout) : ChargeInvariant (checkout.step step) := by
  cases step with
  | complete d expired problem =>
      unfold Checkout.step
      dsimp only
      split_ifs with ha
      · exact h.letIn checkout d expired problem ha (ho ha).1 (ho ha).2
      · exact h
  | recheck expired content evaluated =>
      unfold Checkout.step
      dsimp only
      split_ifs with hopen
      · rw [Bool.and_eq_true, Bool.not_eq_true'] at hopen
        exact h.edit checkout content evaluated (frozen_false checkout expired hopen.1)
      · exact h
  | afaStep expired evaluated =>
      unfold Checkout.step
      dsimp only
      split_ifs with hopen
      · rw [Bool.and_eq_true, Bool.not_eq_true'] at hopen
        exact h.reopened checkout evaluated (frozen_false checkout expired hopen.1)
      · exact h
  | update expired content evaluated =>
      unfold Checkout.step
      dsimp only
      split_ifs with hfrozen
      · exact h
      · exact h.edit checkout content evaluated (frozen_false checkout expired (Bool.not_eq_true _ ▸ hfrozen))
  | cancel =>
      unfold Checkout.step
      dsimp only
      split_ifs with hc
      · exact h.cancel checkout hc (ho hc)
      · exact h
  | execute d answer =>
      unfold Checkout.step
      dsimp only
      split
      · rename_i execution hf
        exact h.execute checkout execution answer (List.mem_of_find?_eq_some hf)
      · exact h
  | apply d presentation => exact h.apply checkout d presentation
  | event d orderId status amount credentials =>
      unfold Checkout.step
      dsimp only
      split
      · rename_i created hcreated
        obtain ⟨hmem, href⟩ := created_row checkout d orderId created hcreated
        exact h.receive checkout d created orderId status amount credentials hmem href ho.1 ho.2
      · exact h
  | reconcile index answer =>
      unfold Checkout.step
      dsimp only
      split
      · rename_i reconcile hget
        exact h.reconcile checkout index reconcile answer hget
      · exact h

theorem ChargeInvariant.run (checkout : Checkout) (steps : List CheckoutStep) (h : ChargeInvariant checkout)
    (ho : OrderedAlong checkout steps) : ChargeInvariant (checkout.run steps) := by
  induction steps generalizing checkout with
  | nil => exact h
  | cons step rest ih => exact ih (checkout.step step) (h.step checkout step ho.1) ho.2

-- A buyer is charged at most once for a session, and never for an attempt that was abandoned.
theorem charged_once (checkout : Checkout) (steps : List CheckoutStep) (hnew : NewCheckout checkout)
    (ho : OrderedAlong checkout steps) : ChargedOnce (checkout.run steps) :=
  ((hnew.chargeInvariant checkout).run checkout steps ho).chargedOnce

end Runs

section Examples

def rupees (total : ℤ) : Content where
  lineItems := [⟨"li_1", "kettle", 1, total⟩]
  total := total
  currency := "INR"
  upper := by decide +kernel

def readyCheckout : Checkout where
  session := { status := .readyForComplete, content := rupees 100, decisionId := none, revision := 1 }
  journal := { rows := [], distinct := by simp }
  executions := []
  reconciles := []
  order := none
  consumed := []
  trace := []

theorem readyCheckout_new : NewCheckout readyCheckout := ⟨rfl, rfl, rfl, rfl, rfl, rfl, rfl, rfl⟩

-- A Complete up to the answer to its payment.
def attempt (decisionId : ℕ) (orderId : String) (data : PaymentData) : List CheckoutStep :=
  [.complete decisionId false none, .execute decisionId .refused, .execute decisionId (.order (some orderId)),
   .execute decisionId .refused, .execute decisionId (.payment data)]

-- The capture of an attempt and its answer.
def capture (decisionId : ℕ) (answer : ProviderAnswer) : List CheckoutStep :=
  [.execute decisionId .refused, .execute decisionId .refused, .execute decisionId answer,
   .apply decisionId .action]

def authorizedPayment : PaymentData := ⟨.authorized, false, none⟩

-- The first capture is refused and the second Complete pays.
def paidAgain : List CheckoutStep :=
  attempt 1 "v1" authorizedPayment ++ capture 1 .refused ++ attempt 2 "v2" authorizedPayment ++
    capture 2 (.capture .captured)

theorem charged_once_paid_again :
    OrderedAlong readyCheckout paidAgain ∧ ChargedOnce (readyCheckout.run paidAgain) ∧
      (readyCheckout.run paidAgain).session.status = .completed := by
  have hordered : OrderedAlong readyCheckout paidAgain := by decide +kernel
  exact ⟨hordered, charged_once readyCheckout paidAgain readyCheckout_new hordered, by decide +kernel⟩

-- A pending payment is authorised after a second Complete has paid, and is captured too.
def authorizedLate : List CheckoutStep :=
  attempt 1 "v1" ⟨.pending, false, none⟩ ++ [.apply 1 .action] ++ attempt 2 "v2" authorizedPayment ++
    capture 2 (.capture .captured) ++
    [.event 1 "v1" .authorized none true, .reconcile 0 .refused, .reconcile 0 .refused]

theorem charged_twice :
    ¬∀ (checkout : Checkout) (steps : List CheckoutStep), NewCheckout checkout →
      ChargedOnce (checkout.run steps) := by
  intro h
  have hsingle := (h readyCheckout authorizedLate readyCheckout_new).single 1 2
  revert hsingle
  decide +kernel

end Examples

end AgenticOrg.Commerce
