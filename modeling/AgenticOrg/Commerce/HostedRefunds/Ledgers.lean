import AgenticOrg.Commerce.HostedRefunds
import AgenticOrg.Commerce.Payments.Theorems

namespace AgenticOrg.Commerce.Hosted

open Tables

section Facts

variable (order later : HostedOrder)

def HostedOrder.Has (reference : Reference) (phase : Phase) : Prop :=
  ∃ row ∈ order.journal.rows, row.reference = reference ∧ row.phase = phase

def HostedOrder.Requested (reference : Reference) (amount : ℤ) : Prop :=
  ∃ row ∈ order.journal.rows, row.reference = reference ∧ row.phase = .requested ∧ row.amountMinorUnits = amount

-- The phase that an adjustment's status is recorded for.
def recordedPhase : AdjustmentStatus → Phase
  | .pending => .unknown
  | .completed => .succeeded
  | .failed => .failed

def CallStage.inFlight : CallStage → Bool
  | .begun => true
  | .sent => true
  | .answered _ => true
  | _ => false

-- What the ledgers say of where a request stands.
def HostedOrder.StageFits (reference : Reference) (requested : ℤ) : CallStage → Prop
  | .found phases amount => order.Requested reference amount ∧ ∀ phase ∈ phases, order.Has reference phase
  | .recording status amount => order.Requested reference amount ∧ order.Has reference (recordedPhase status)
  | .begun => order.Requested reference requested
  | .sent => order.Requested reference requested
  | .answered phase => order.Requested reference requested ∧ phase ≠ .requested ∧
      order.agreesWithProvider reference phase = true
  | _ => True

def Phase.final (phase : Phase) : Prop := phase = .succeeded ∨ phase = .failed

def HostedOrder.CheckFits (reference : Reference) : CheckStage → Prop
  | .told phase => Phase.final phase ∧ order.agreesWithProvider reference phase = true
  | .journalled phase => Phase.final phase ∧ order.Has reference phase
  | .missing => order.Has reference .succeeded
  | _ => True

def HostedOrder.AdjustmentFits (adjustment : Adjustment) : Prop :=
  ∀ reference, adjustment.id = .refund reference → ∃ amount, order.Requested reference amount ∧
    order.Has reference (recordedPhase adjustment.status) ∧
    adjustment = refundAdjustment reference adjustment.status amount

-- The journal only gets rows, and the provider keeps to what it said.
structure Grows : Prop where
  rows : ∀ row ∈ order.journal.rows, row ∈ later.journal.rows
  provider : ∀ reference phase, order.agreesWithProvider reference phase = true →
    later.agreesWithProvider reference phase = true

variable {order later}

theorem Grows.has (h : Grows order later) (reference : Reference) (phase : Phase)
    (hh : order.Has reference phase) : later.Has reference phase := by
  obtain ⟨row, hr, hrest⟩ := hh
  exact ⟨row, h.rows row hr, hrest⟩

theorem Grows.requested (h : Grows order later) (reference : Reference) (amount : ℤ)
    (hh : order.Requested reference amount) : later.Requested reference amount := by
  obtain ⟨row, hr, hrest⟩ := hh
  exact ⟨row, h.rows row hr, hrest⟩

theorem Grows.stageFits (h : Grows order later) (reference : Reference) (requested : ℤ) (stage : CallStage)
    (hf : order.StageFits reference requested stage) : later.StageFits reference requested stage := by
  cases stage with
  | found phases amount =>
      exact ⟨h.requested _ _ hf.1, fun phase hp => h.has _ _ (hf.2 phase hp)⟩
  | recording status amount => exact ⟨h.requested _ _ hf.1, h.has _ _ hf.2⟩
  | begun => exact h.requested _ _ hf
  | sent => exact h.requested _ _ hf
  | answered phase => exact ⟨h.requested _ _ hf.1, hf.2.1, h.provider _ _ hf.2.2⟩
  | lookup | deciding | consuming | decided | done => trivial

theorem Grows.checkFits (h : Grows order later) (reference : Reference) (stage : CheckStage)
    (hf : order.CheckFits reference stage) : later.CheckFits reference stage := by
  cases stage with
  | told phase => exact ⟨hf.1, h.provider _ _ hf.2⟩
  | journalled phase => exact ⟨hf.1, h.has _ _ hf.2⟩
  | missing => exact h.has _ _ hf
  | selected | done => trivial

theorem Grows.adjustmentFits (h : Grows order later) (adjustment : Adjustment)
    (hf : order.AdjustmentFits adjustment) : later.AdjustmentFits adjustment := by
  intro reference hid
  obtain ⟨amount, hr, hh, he⟩ := hf reference hid
  exact ⟨amount, h.requested _ _ hr, h.has _ _ hh, he⟩

end Facts

section Invariants

structure LedgerInvariant (order : HostedOrder) : Prop where
  rows : ∀ row ∈ order.journal.rows, row.operation = .refund ∧ 0 ≤ row.amountMinorUnits ∧
    order.agreesWithProvider row.reference row.phase = true ∧ order.Has row.reference .requested
  bound : refundedOf order.journal.entries ≤ order.totalMinorUnits
  provider : ∀ call ∈ order.provider.rows, order.Requested call.reference call.amount
  amounts : ∀ call ∈ order.calls.rows, 1 ≤ call.amount
  calls : ∀ call ∈ order.calls.rows, order.StageFits call.reference call.amount call.stage
  flight : ∀ call ∈ order.calls.rows, call.stage.inFlight = true → ¬order.Has call.reference .unknown ∧
    ∀ other ∈ order.calls.rows, other.stage.inFlight = true → other.reference = call.reference →
      other.number = call.number
  items : ∀ check ∈ order.checks, order.Requested check.item.reference check.item.amount
  checks : ∀ check ∈ order.checks, order.CheckFits check.item.reference check.stage
  adjustments : ∀ adjustment ∈ order.adjustments.rows, order.AdjustmentFits adjustment

variable {order : HostedOrder}

theorem NewOrder.ledgerInvariant (h : NewOrder order) : LedgerInvariant order := by
  refine
    { rows := ?_, bound := ?_, provider := ?_, amounts := ?_, calls := ?_, flight := ?_, items := ?_, checks := ?_
      adjustments := ?_ }
  · simp [h.journal]
  · have hentries : order.journal.entries = [] := by rw [HostedJournal.entries, h.journal, List.map_nil]
    rw [hentries]
    exact h.total
  · simp [h.provider]
  · simp [h.calls]
  · simp [h.calls]
  · simp [h.calls]
  · simp [h.checks]
  · simp [h.checks]
  · intro adjustment ha reference hid
    obtain ⟨number, hn⟩ := h.adjustments adjustment ha
    rw [hn] at hid
    cases hid

-- Two rows of a reference and a phase are one.
theorem LedgerInvariant.row_unique (h : LedgerInvariant order) (row other : HostedRow)
    (hr : row ∈ order.journal.rows) (ho : other ∈ order.journal.rows) (href : row.reference = other.reference)
    (hphase : row.phase = other.phase) : row = other := by
  refine order.journal.eq_of_key row other hr ho ?_
  have hop : row.operation = other.operation := (h.rows row hr).1.trans (h.rows other ho).1.symm
  exact Prod.ext href (Prod.ext hop hphase)

theorem LedgerInvariant.requested_unique (h : LedgerInvariant order) (reference : Reference) (a b : ℤ)
    (ha : order.Requested reference a) (hb : order.Requested reference b) : a = b := by
  obtain ⟨row, hr, href, hphase, rfl⟩ := ha
  obtain ⟨other, ho, href', hphase', rfl⟩ := hb
  rw [h.row_unique row other hr ho (href.trans href'.symm) (hphase.trans hphase'.symm)]

theorem mem_entries (journal : HostedJournal) (entry : JournalEntry) :
    entry ∈ journal.entries ↔ ∃ row ∈ journal.rows, row.toJournalEntry = entry :=
  List.mem_map

-- The journal without the times of its rows.
def HostedJournal.plain (journal : HostedJournal) : Journal where
  rows := journal.entries
  distinct := by
    rw [HostedJournal.entries, List.map_map]
    exact journal.distinct

theorem LedgerInvariant.requestedAmount (h : LedgerInvariant order) (reference : Reference) (amount : ℤ)
    (hr : order.Requested reference amount) :
    requestedAmount order.journal.entries .refund reference = amount := by
  obtain ⟨row, hmem, rfl, hphase, rfl⟩ := hr
  rw [← (h.rows row hmem).1]
  exact requestedAmount_of_mem row.toJournalEntry order.journal.plain
    ((mem_entries order.journal _).mpr ⟨row, hmem, rfl⟩) hphase

theorem LedgerInvariant.nonnegative (h : LedgerInvariant order) : Nonnegative .refund order.journal.entries := by
  intro entry he _
  obtain ⟨row, hr, rfl⟩ := (mem_entries order.journal entry).mp he
  exact (h.rows row hr).2.1

theorem mem_references_iff (h : LedgerInvariant order) (reference : Reference) :
    reference ∈ references .refund order.journal.entries ↔ order.Has reference .requested := by
  rw [mem_references]
  constructor
  · rintro ⟨entry, he, _, rfl⟩
    obtain ⟨row, hr, rfl⟩ := (mem_entries order.journal entry).mp he
    exact (h.rows row hr).2.2.2
  · rintro ⟨row, hr, rfl, _⟩
    exact ⟨row.toJournalEntry, (mem_entries order.journal _).mpr ⟨row, hr, rfl⟩, (h.rows row hr).1, rfl⟩

theorem HostedOrder.Requested.has (reference : Reference) (amount : ℤ) (h : order.Requested reference amount) :
    order.Has reference .requested := by
  obtain ⟨row, hr, href, hphase, _⟩ := h
  exact ⟨row, hr, href, hphase⟩

theorem HostedOrder.Has.requested (reference : Reference) (h : order.Has reference .requested) :
    ∃ amount, order.Requested reference amount := by
  obtain ⟨row, hr, href, hphase⟩ := h
  exact ⟨_, row, hr, href, hphase, rfl⟩

end Invariants

section Updates

variable {order : HostedOrder}

theorem mem_setCall (call other : Call) (stage : CallStage) (hc : call ∈ order.calls.rows)
    (h : other ∈ (order.setCall call stage).calls.rows) :
    (other ∈ order.calls.rows ∧ other.number ≠ call.number) ∨ other = { call with stage } := by
  obtain ⟨old, ho, ⟨hne, rfl⟩ | ⟨he, rfl⟩⟩ := order.calls.mem_modify call.number (fun old => { old with stage }) (fun _ => rfl) other h
  · exact .inl ⟨ho, hne⟩
  · rw [order.calls.eq_of_key old call ho hc he]
    exact .inr rfl

theorem LedgerInvariant.setCall (h : LedgerInvariant order) (call : Call) (stage : CallStage)
    (hc : call ∈ order.calls.rows) (hfits : order.StageFits call.reference call.amount stage)
    (hflight : stage.inFlight = true → ¬order.Has call.reference .unknown ∧
      ∀ other ∈ order.calls.rows, other.stage.inFlight = true → other.reference = call.reference →
        other.number = call.number) :
    LedgerInvariant (order.setCall call stage) := by
  refine { h with amounts := ?_, calls := ?_, flight := ?_ }
  · intro other ho
    rcases mem_setCall call other stage hc ho with ⟨ho, _⟩ | rfl
    · exact h.amounts other ho
    · exact h.amounts call hc
  · intro other ho
    rcases mem_setCall call other stage hc ho with ⟨ho, _⟩ | rfl
    · exact h.calls other ho
    · exact hfits
  · intro other ho hf
    rcases mem_setCall call other stage hc ho with ⟨ho, _⟩ | rfl
    · refine ⟨(h.flight other ho hf).1, fun third ht hf' href => ?_⟩
      rcases mem_setCall call third stage hc ht with ⟨ht, _⟩ | rfl
      · exact (h.flight other ho hf).2 third ht hf' href
      · exact ((hflight hf').2 other ho hf href.symm).symm
    · refine ⟨(hflight hf).1, fun third ht hf' href => ?_⟩
      rcases mem_setCall call third stage hc ht with ⟨ht, _⟩ | rfl
      · exact (hflight hf).2 third ht hf' href
      · rfl

-- A stage out of flight.
theorem LedgerInvariant.landCall (h : LedgerInvariant order) (call : Call) (stage : CallStage)
    (hc : call ∈ order.calls.rows) (hfits : order.StageFits call.reference call.amount stage)
    (hland : stage.inFlight = false) : LedgerInvariant (order.setCall call stage) := by
  refine h.setCall call stage hc hfits fun hf => ?_
  rw [hland] at hf
  cases hf

theorem LedgerInvariant.setCheck (h : LedgerInvariant order) (index : ℕ) (check : Check) (stage : CheckStage)
    (hc : check ∈ order.checks) (hfits : order.CheckFits check.item.reference stage) :
    LedgerInvariant (order.setCheck index check stage) := by
  have hmem : ∀ other ∈ (order.setCheck index check stage).checks,
      other ∈ order.checks ∨ other = { check with stage } := by
    intro other ho
    exact List.mem_or_eq_of_mem_set ho
  refine { h with items := ?_, checks := ?_ }
  · intro other ho
    rcases hmem other ho with ho | rfl
    · exact h.items other ho
    · exact h.items check hc
  · intro other ho
    rcases hmem other ho with ho | rfl
    · exact h.checks other ho
    · exact hfits

-- A row more in the journal.
theorem LedgerInvariant.journalled (h : LedgerInvariant order) (journal : HostedJournal) (row : HostedRow)
    (hrows : journal.rows = order.journal.rows ++ [row]) (hop : row.operation = .refund)
    (hamount : 0 ≤ row.amountMinorUnits)
    (hverdict : order.agreesWithProvider row.reference row.phase = true)
    (hrequested : row.phase = .requested ∨ order.Has row.reference .requested)
    (hbound : refundedOf journal.entries ≤ order.totalMinorUnits)
    (hflight : row.phase = .unknown → ∀ call ∈ order.calls.rows, call.stage.inFlight = true →
      call.reference ≠ row.reference) :
    LedgerInvariant { order with journal } := by
  have hgrows : Grows order { order with journal } := by
    refine ⟨fun old ho => ?_, fun _ _ hv => hv⟩
    dsimp only
    rw [hrows]
    exact List.mem_append_left _ ho
  have hmem : ∀ other ∈ journal.rows, other ∈ order.journal.rows ∨ other = row := by
    intro other ho
    rwa [hrows, List.mem_append, List.mem_singleton] at ho
  have hnew : row ∈ journal.rows := by
    rw [hrows]
    exact List.mem_append_right _ (List.mem_singleton_self _)
  refine
    { rows := ?_, bound := hbound, provider := ?_, amounts := h.amounts, calls := ?_, flight := ?_, items := ?_
      checks := ?_, adjustments := ?_ }
  · intro other ho
    rcases hmem other ho with ho | rfl
    · obtain ⟨hop, hn, hv, hr⟩ := h.rows other ho
      exact ⟨hop, hn, hv, hgrows.has _ _ hr⟩
    · refine ⟨hop, hamount, hverdict, ?_⟩
      rcases hrequested with hr | hr
      · exact ⟨other, hnew, rfl, hr⟩
      · exact hgrows.has _ _ hr
  · exact fun call hc => hgrows.requested _ _ (h.provider call hc)
  · exact fun call hc => hgrows.stageFits _ _ _ (h.calls call hc)
  · intro call hc hf
    refine ⟨?_, (h.flight call hc hf).2⟩
    rintro ⟨other, ho, href, hphase⟩
    rcases hmem other ho with ho | rfl
    · exact (h.flight call hc hf).1 ⟨other, ho, href, hphase⟩
    · exact hflight hphase call hc hf href.symm
  · exact fun check hc => hgrows.requested _ _ (h.items check hc)
  · exact fun check hc => hgrows.checkFits _ _ (h.checks check hc)
  · exact fun adjustment ha => hgrows.adjustmentFits _ (h.adjustments adjustment ha)

theorem entries_append (journal later : HostedJournal) (row : HostedRow) (h : later.rows = journal.rows ++ [row]) :
    later.entries = journal.entries ++ [row.toJournalEntry] := by
  rw [HostedJournal.entries, HostedJournal.entries, h, List.map_append, List.map_singleton]

-- An outcome of a call that was requested.
theorem LedgerInvariant.outcome (h : LedgerInvariant order) (journal : HostedJournal) (row : HostedRow)
    (hrows : journal.rows = order.journal.rows ++ [row]) (hop : row.operation = .refund)
    (hamount : 0 ≤ row.amountMinorUnits) (hphase : row.phase ≠ .requested)
    (hverdict : order.agreesWithProvider row.reference row.phase = true)
    (hrequested : order.Has row.reference .requested)
    (hflight : row.phase = .unknown → ∀ call ∈ order.calls.rows, call.stage.inFlight = true →
      call.reference ≠ row.reference) :
    LedgerInvariant { order with journal } := by
  refine h.journalled journal row hrows hop hamount hverdict (.inr hrequested) ?_ hflight
  rw [entries_append order.journal journal row hrows]
  have hle := refundedOf_append_le order.journal.entries row.toJournalEntry h.nonnegative fun hr => hphase hr.2
  exact hle.trans h.bound

-- The provider hears of more, and does not take back what it said.
theorem LedgerInvariant.setProvider (h : LedgerInvariant order) (provider : Table ProviderCall)
    (hgrows : Grows order { order with provider })
    (hprovider : ∀ call ∈ provider.rows, order.Requested call.reference call.amount) :
    LedgerInvariant { order with provider } := by
  refine
    { rows := ?_, bound := h.bound, provider := hprovider, amounts := h.amounts, calls := ?_, flight := h.flight
      items := h.items, checks := ?_, adjustments := h.adjustments }
  · intro row hr
    obtain ⟨hop, hn, hv, hreq⟩ := h.rows row hr
    exact ⟨hop, hn, hgrows.provider _ _ hv, hreq⟩
  · exact fun call hc => hgrows.stageFits _ _ _ (h.calls call hc)
  · exact fun check hc => hgrows.checkFits _ _ (h.checks check hc)

theorem LedgerInvariant.setAdjustments (h : LedgerInvariant order) (adjustments : Table Adjustment)
    (interrupted : List Reference) (ha : ∀ adjustment ∈ adjustments.rows, order.AdjustmentFits adjustment) :
    LedgerInvariant { order with adjustments, interrupted } := { h with adjustments := ha }

end Updates

section Orders

variable {order : HostedOrder}

theorem find?_none_of_insert? (adjustments later : Table Adjustment) (adjustment : Adjustment)
    (h : adjustments.insert? adjustment = some later) : adjustments.find? adjustment.id = none := by
  rw [Table.find?_eq_none_iff]
  exact (Table.rows_insert? adjustments later adjustment h).2

-- The order gets an adjustment for an outcome that is journalled.
theorem LedgerInvariant.applyOrderChange (h : LedgerInvariant order) (reference : Reference)
    (status : AdjustmentStatus) (amount : ℤ) (hr : order.Requested reference amount)
    (hh : order.Has reference (recordedPhase status)) :
    LedgerInvariant (order.applyOrderChange reference status amount) := by
  unfold HostedOrder.applyOrderChange
  split
  · exact h
  · rename_i adjustments hi
    refine h.setAdjustments adjustments _ fun adjustment ha => ?_
    rw [(Table.rows_insert? order.adjustments adjustments _ hi).1, List.mem_append, List.mem_singleton] at ha
    rcases ha with ha | rfl
    · exact h.adjustments adjustment ha
    · intro other hid
      cases hid
      exact ⟨amount, hr, hh, rfl⟩

theorem LedgerInvariant.setOrderAdjustmentStatus (h : LedgerInvariant order) (later : HostedOrder)
    (reference : Reference) (status : AdjustmentStatus) (hh : order.Has reference (recordedPhase status))
    (hs : order.setOrderAdjustmentStatus reference status = some later) : LedgerInvariant later := by
  unfold HostedOrder.setOrderAdjustmentStatus at hs
  split at hs
  · cases hs
  · split_ifs at hs
    cases hs
    refine h.setAdjustments _ _ fun adjustment ha => ?_
    obtain ⟨old, ho, ⟨_, rfl⟩ | ⟨hid, rfl⟩⟩ := order.adjustments.mem_modify (.refund reference)
      (fun old => { old with status }) (fun _ => rfl) adjustment ha
    · exact h.adjustments adjustment ho
    · intro other hid'
      obtain ⟨amount, hr, _, he⟩ := h.adjustments old ho reference hid
      have href : other = reference := by
        have hboth : AdjustmentId.refund other = .refund reference := hid'.symm.trans hid
        cases hboth
        rfl
      rw [href]
      refine ⟨amount, hr, hh, ?_⟩
      rw [he]
      rfl

theorem LedgerInvariant.interrupt (h : LedgerInvariant order) (reference : Reference) (phase : Phase) :
    LedgerInvariant (order.interrupt reference phase) := by
  unfold HostedOrder.interrupt
  split_ifs
  · exact h
  · exact { h with }

end Orders

section Calls

variable {order : HostedOrder}

-- The first read finds the amount that was requested and phases that are journalled.
theorem lookup_fits (h : LedgerInvariant order) (call : Call) (replayed : Bool) :
    order.StageFits call.reference call.amount (order.lookup call replayed) ∧
      (order.lookup call replayed).inFlight = false := by
  unfold HostedOrder.lookup
  split
  · cases replayed <;> exact ⟨trivial, rfl⟩
  · rename_i first rest hf
    refine ⟨⟨?_, ?_⟩, rfl⟩
    · have hmem : ∀ entry ∈ first :: rest, ∃ row ∈ order.journal.rows, row.toJournalEntry = entry ∧
          entry.reference = call.reference := by
        intro entry he
        rw [← hf, List.mem_filter, decide_eq_true_eq] at he
        obtain ⟨row, hr, he'⟩ := (mem_entries order.journal entry).mp he.1
        exact ⟨row, hr, he', he.2.1⟩
      obtain ⟨row, hr, hrow, href⟩ := hmem first List.mem_cons_self
      obtain ⟨request, hreq, hreqref, hphase⟩ := (h.rows row hr).2.2.2
      have href' : request.reference = call.reference := by
        rw [hreqref, ← href, ← hrow]
      have hin : request.toJournalEntry ∈ first :: rest := by
        rw [← hf, List.mem_filter, decide_eq_true_eq]
        exact ⟨(mem_entries order.journal _).mpr ⟨request, hreq, rfl⟩, href', (h.rows request hreq).1⟩
      cases hfind : (first :: rest).find? (·.phase = .requested) with
      | none =>
          rw [List.find?_eq_none] at hfind
          exact absurd (decide_eq_true hphase) (hfind _ hin)
      | some found =>
          obtain ⟨old, ho, hold, hofref⟩ := hmem found (List.mem_of_find?_eq_some hfind)
          have hfound := List.find?_some hfind
          rw [decide_eq_true_eq] at hfound
          subst hold
          exact ⟨old, ho, hofref, hfound, rfl⟩
    · intro phase hp
      obtain ⟨entry, he, rfl⟩ := List.mem_map.mp hp
      rw [← hf, List.mem_filter, decide_eq_true_eq] at he
      obtain ⟨row, hr, rfl⟩ := (mem_entries order.journal entry).mp he.1
      exact ⟨row, hr, he.2.1, rfl⟩

theorem earlier_fits (call : Call) (phases : List Phase) (amount : ℤ)
    (hr : order.Requested call.reference amount) (hp : ∀ phase ∈ phases, order.Has call.reference phase) :
    order.StageFits call.reference call.amount (order.earlier call phases amount) ∧
      (order.earlier call phases amount).inFlight = false := by
  unfold HostedOrder.earlier
  split_ifs with hrecord hsucceeded
  · exact ⟨⟨hr, hp _ hsucceeded⟩, rfl⟩
  · exact ⟨⟨hr, hp _ (hrecord.2.2.resolve_left hsucceeded)⟩, rfl⟩
  · exact ⟨trivial, rfl⟩

theorem refundProblem_none (amount : ℤ) (credentials : Bool) (h : order.refundProblem amount credentials = none) :
    order.refunded + amount ≤ order.totalMinorUnits := by
  unfold HostedOrder.refundProblem at h
  split_ifs at h
  omega

theorem refunded_nonneg (adjustment : Adjustment) : 0 ≤ adjustment.refunded := by
  unfold Adjustment.refunded
  split_ifs
  · refine List.sum_nonneg fun line hl => ?_
    obtain ⟨total, _, rfl⟩ := List.mem_map.mp hl
    exact abs_nonneg _
  · exact le_refl 0

theorem recordedRefunds_nonneg (adjustments : List Adjustment) (excludeIds : List AdjustmentId) :
    0 ≤ recordedRefunds adjustments excludeIds := by
  refine List.sum_nonneg fun amount hm => ?_
  obtain ⟨adjustment, _, rfl⟩ := List.mem_map.mp hm
  exact refunded_nonneg adjustment

theorem LedgerInvariant.begin (h : LedgerInvariant order) (call : Call) (given : Given)
    (hc : call ∈ order.calls.rows) : LedgerInvariant (order.begin call given) := by
  have hamount := h.amounts call hc
  unfold HostedOrder.begin
  split_ifs with hjournalled hproblem
  · exact h.landCall call _ hc trivial rfl
  · exact h.landCall call _ hc trivial rfl
  · split
    · exact h.landCall call _ hc trivial rfl
    · rename_i journal hi
      rw [Option.not_isSome_iff_eq_none] at hproblem
      have hwithin := refundProblem_none call.amount given.credentials hproblem
      have hrecorded := recordedRefunds_nonneg order.adjustments.rows
        ((references .refund order.journal.entries).map .refund)
      have hfresh : ¬order.Has call.reference .requested := by
        rw [← mem_references_iff h]
        exact hjournalled
      obtain ⟨hrows, _⟩ := Table.rows_insert? order.journal journal _ hi
      have hbound : refundedOf (HostedJournal.entries journal) ≤ order.totalMinorUnits := by
        have happend := refundedOf_append_requested order.journal.entries
          (hostedRow (order.record call) .requested none given.now).toJournalEntry h.nonnegative rfl rfl
          (by change 0 ≤ call.amount; omega) ?_
        · rw [← entries_append order.journal journal _ hrows] at happend
          refine happend.trans ?_
          change refundedOf order.journal.entries + call.amount ≤ order.totalMinorUnits
          rw [HostedOrder.refunded, hostedRefunded] at hwithin
          omega
        · by_contra hhas
          rw [Bool.not_eq_false, hasPhase_iff] at hhas
          obtain ⟨entry, he, _, href, hphase⟩ := hhas
          obtain ⟨row, hr, rfl⟩ := (mem_entries order.journal entry).mp he
          exact hfresh ⟨row, hr, href, hphase⟩
      have hj := h.journalled journal _ hrows rfl (by change 0 ≤ call.amount; omega) rfl (.inl rfl) hbound
        fun hp => by cases hp
      have hnew : HostedOrder.Requested { order with journal } call.reference call.amount := by
        refine ⟨hostedRow (order.record call) .requested none given.now, ?_, rfl, rfl, rfl⟩
        dsimp only
        rw [hrows]
        exact List.mem_append_right _ (List.mem_singleton_self _)
      refine hj.setCall call .begun hc hnew fun _ => ⟨?_, ?_⟩
      · rintro ⟨row, hr, href, hphase⟩
        dsimp only at hr
        rw [hrows, List.mem_append, List.mem_singleton] at hr
        rcases hr with hr | rfl
        · have hreq := (h.rows row hr).2.2.2
          rw [href] at hreq
          exact hfresh hreq
        · cases hphase
      · intro other ho hf href
        have hreq : order.Requested other.reference other.amount := by
          have hfits := h.calls other ho
          revert hf hfits
          cases other.stage with
          | begun | sent => exact fun _ hfits => hfits
          | answered phase => exact fun _ hfits => hfits.1
          | lookup | found | recording | deciding | consuming | decided | done => exact fun hf => by cases hf
        rw [href] at hreq
        exact absurd hreq.has hfresh

theorem setCall_setCall (call : Call) (first second : CallStage) :
    (order.setCall call first).setCall { call with stage := first } second = order.setCall call second := by
  unfold HostedOrder.setCall
  congr 1
  refine Table.ext ?_
  unfold Table.modify
  dsimp only
  rw [List.map_map]
  refine List.map_congr_left fun old _ => ?_
  dsimp only [Function.comp_apply]
  by_cases hk : Keyed.key old = call.number
  · rw [if_pos hk, if_pos hk]
    exact if_pos hk
  · rw [if_neg hk, if_neg hk]

theorem mem_setCall_self (call : Call) (stage : CallStage) (hc : call ∈ order.calls.rows) :
    { call with stage } ∈ (order.setCall call stage).calls.rows :=
  List.mem_map.mpr ⟨call, hc, if_pos rfl⟩

-- What the provider decided, it keeps.
theorem grows_of_decided (provider : Table ProviderCall)
    (h : ∀ reference call, order.provider.find? reference = some call → call.verdict ≠ .undecided →
      provider.find? reference = some call) : Grows order { order with provider } := by
  have hany : ∀ reference (verdict : Verdict), verdict ≠ .undecided →
      (order.provider.find? reference).any (·.verdict = verdict) = true →
      (provider.find? reference).any (·.verdict = verdict) = true := by
    intro reference verdict hne ha
    rw [Option.any_eq_true] at ha ⊢
    obtain ⟨call, hf, hv⟩ := ha
    rw [decide_eq_true_eq] at hv
    exact ⟨call, h reference call hf (hv ▸ hne), decide_eq_true hv⟩
  refine ⟨fun _ hr => hr, fun reference phase hv => ?_⟩
  cases phase with
  | succeeded => exact hany reference .refunded (by decide) hv
  | failed => exact hany reference .refused (by decide) hv
  | requested | unknown => rfl

theorem LedgerInvariant.send (h : LedgerInvariant order) (call : Call)
    (hr : order.Requested call.reference call.amount) :
    LedgerInvariant { order with
      provider := (order.provider.insert? ⟨call.reference, call.amount, .undecided⟩).getD order.provider } := by
  cases hi : order.provider.insert? ⟨call.reference, call.amount, .undecided⟩ with
  | none => exact h
  | some provider =>
      obtain ⟨hrows, hfresh⟩ := Table.rows_insert? order.provider provider _ hi
      refine h.setProvider provider (grows_of_decided provider ?_) ?_
      · intro reference other hf _
        rw [Table.find?_of_insert? order.provider provider _ hi reference, if_neg, hf]
        intro hk
        obtain ⟨hmem, hkey⟩ := order.provider.mem_of_find? reference other hf
        exact hfresh other hmem (hkey.trans hk.symm)
      · intro other ho
        rw [hrows, List.mem_append, List.mem_singleton] at ho
        rcases ho with ho | rfl
        · exact h.provider other ho
        · exact hr

theorem LedgerInvariant.decideVerdict (h : LedgerInvariant order) (reference : Reference) (refunded : Bool) :
    LedgerInvariant (order.step (.decideVerdict reference refunded)) := by
  refine h.setProvider _ (grows_of_decided _ ?_) ?_
  · intro other call hf hv
    rw [Table.find?_modify]
    split_ifs
    · rw [hf, Option.map_some, Verdict.decide, if_neg hv]
    · exact hf
  · intro call hc
    obtain ⟨old, ho, ⟨_, rfl⟩ | ⟨_, rfl⟩⟩ := order.provider.mem_modify reference
      (fun call => { call with verdict := call.verdict.decide refunded }) (fun _ => rfl) call hc
    · exact h.provider call ho
    · exact h.provider old ho

theorem answer_ne_requested (answer : HostedAnswer) : answer.phase ≠ .requested := by
  cases answer with
  | error httpStatus =>
      change refusedPhase httpStatus ≠ .requested
      unfold refusedPhase
      split_ifs <;> decide
  | unreachable => decide
  | answered status =>
      change refundPhase status ≠ .requested
      unfold refundPhase
      split_ifs <;> decide

theorem answeredStage_fits (reference : Reference) (requested amount : ℤ) (phase : Phase)
    (hr : order.Requested reference amount) (hp : order.Has reference phase) :
    order.StageFits reference requested (answeredStage phase amount) ∧
      (answeredStage phase amount).inFlight = false := by
  cases phase with
  | succeeded => exact ⟨⟨hr, hp⟩, rfl⟩
  | unknown => exact ⟨⟨hr, hp⟩, rfl⟩
  | requested | failed => exact ⟨trivial, rfl⟩

-- The answer of a call is journalled.
theorem LedgerInvariant.finish (h : LedgerInvariant order) (call : Call) (phase : Phase) (journal : HostedJournal)
    (now : ℤ) (hc : call ∈ order.calls.rows) (hstage : call.stage = .answered phase)
    (hi : order.journal.insert? (hostedRow (order.record call) phase order.providerOrderRef now) = some journal) :
    LedgerInvariant ({ order with journal }.setCall call (answeredStage phase call.amount)) := by
  have hfits := h.calls call hc
  rw [hstage] at hfits
  obtain ⟨hr, hphase, hverdict⟩ := hfits
  have hamount := h.amounts call hc
  obtain ⟨hrows, _⟩ := Table.rows_insert? order.journal journal _ hi
  -- the request lands before its answer is in the journal
  have hlanded := h.landCall call .done hc trivial rfl
  have hj := hlanded.outcome journal _ hrows rfl (by change 0 ≤ call.amount; omega) hphase hverdict hr.has ?_
  · have hflight : LedgerInvariant ({ order with journal }.setCall call .done) := hj
    have hself : { call with stage := .done } ∈ ({ order with journal }.setCall call .done).calls.rows :=
      mem_setCall_self call .done hc
    have hnew : HostedOrder.Has { order with journal } call.reference phase := by
      refine ⟨hostedRow (order.record call) phase order.providerOrderRef now, ?_, rfl, rfl⟩
      dsimp only
      rw [hrows]
      exact List.mem_append_right _ (List.mem_singleton_self _)
    have hrequested : HostedOrder.Requested { order with journal } call.reference call.amount := by
      obtain ⟨row, hmem, hrest⟩ := hr
      refine ⟨row, ?_, hrest⟩
      dsimp only
      rw [hrows]
      exact List.mem_append_left _ hmem
    obtain ⟨hstagefits, hland⟩ := answeredStage_fits call.reference call.amount call.amount phase hrequested hnew
    have hset := hflight.landCall { call with stage := .done } (answeredStage phase call.amount) hself hstagefits hland
    rw [setCall_setCall] at hset
    exact hset
  · intro _ other ho hf href
    rcases mem_setCall call other .done hc ho with ⟨ho, hne⟩ | rfl
    · have hinflight : call.stage.inFlight = true := by
        rw [hstage]
        rfl
      exact hne ((h.flight call hc hinflight).2 other ho hf href)
    · cases hf

theorem LedgerInvariant.advance (h : LedgerInvariant order) (call : Call) (given : Given)
    (hc : call ∈ order.calls.rows) : LedgerInvariant (order.advance call given) := by
  have hfits := h.calls call hc
  unfold HostedOrder.advance
  split
  next replayed hstage =>
    obtain ⟨hlookup, hland⟩ := lookup_fits h call replayed
    exact h.landCall call _ hc hlookup hland
  next phases amount hstage =>
    rw [hstage] at hfits
    obtain ⟨hearlier, hland⟩ := earlier_fits call phases amount hfits.1 hfits.2
    exact h.landCall call _ hc hearlier hland
  next status amount hstage =>
    rw [hstage] at hfits
    have happlied := h.applyOrderChange call.reference status amount hfits.1 hfits.2
    refine happlied.landCall call .done ?_ trivial rfl
    unfold HostedOrder.applyOrderChange
    split <;> exact hc
  next =>
    split_ifs
    · exact h.landCall call _ hc trivial rfl
    · exact h.landCall call _ hc trivial rfl
  next =>
    refine h.landCall call _ hc ?_ ?_
    · split_ifs <;> trivial
    · split_ifs <;> rfl
  next => exact h.begin call given hc
  next hstage =>
    rw [hstage] at hfits
    have hflight := h.flight call hc (by rw [hstage]; rfl)
    exact (h.send call hfits).setCall call .sent hc hfits fun _ => hflight
  next hstage =>
    rw [hstage] at hfits
    split_ifs with hverdict
    · have hflight := h.flight call hc (by rw [hstage]; rfl)
      refine h.setCall call _ hc ⟨hfits, answer_ne_requested given.answer, hverdict⟩ fun _ => hflight
    · exact h
  next phase hstage =>
    split
    · exact h.landCall call _ hc trivial rfl
    · rename_i journal hi
      exact h.finish call phase journal given.now hc hstage hi
  next => exact h

theorem LedgerInvariant.crash (h : LedgerInvariant order) (call : Call) (hc : call ∈ order.calls.rows) :
    LedgerInvariant (order.crash call) := by
  unfold HostedOrder.crash
  split
  · refine (h.interrupt call.reference .succeeded).landCall call .done ?_ trivial rfl
    unfold HostedOrder.interrupt
    split_ifs <;> exact hc
  · exact h.landCall call .done hc trivial rfl

end Calls

section Checks

variable {order : HostedOrder}

theorem refundPhase_final (status : String) (h : refundPhase status ≠ .unknown) :
    Phase.final (refundPhase status) := by
  unfold refundPhase at h ⊢
  split_ifs at h ⊢
  · exact .inl rfl
  · exact .inr rfl
  · exact absurd rfl h

theorem readRefund_final (item : OutstandingRefund) (given : Given) (phase : Phase)
    (h : order.readRefund item given = some phase) : Phase.final phase := by
  unfold HostedOrder.readRefund at h
  split_ifs at h
  obtain ⟨read, _, hread⟩ := Option.bind_eq_some_iff.mp h
  unfold refundStateFromOrder at hread
  split at hread
  · split_ifs at hread with hunknown
    cases hread
    exact refundPhase_final _ hunknown
  · split_ifs at hread
    cases hread
    exact .inl rfl

theorem LedgerInvariant.requested_nonneg (h : LedgerInvariant order) (reference : Reference) (amount : ℤ)
    (hr : order.Requested reference amount) : 0 ≤ amount := by
  obtain ⟨row, hmem, _, _, rfl⟩ := hr
  exact (h.rows row hmem).2.1

theorem Phase.final.ne_requested (phase : Phase) (h : Phase.final phase) : phase ≠ .requested ∧ phase ≠ .unknown := by
  rcases h with rfl | rfl <;> decide

-- A reconciliation's outcome is in the journal once it is recorded.
theorem LedgerInvariant.recordOnce (h : LedgerInvariant order) (item : OutstandingRefund) (phase : Phase) (now : ℤ)
    (hr : order.Requested item.reference item.amount) (hp : Phase.final phase)
    (hverdict : order.agreesWithProvider item.reference phase = true) :
    LedgerInvariant (order.recordOnce item phase now) ∧ (order.recordOnce item phase now).Has item.reference phase := by
  unfold HostedOrder.recordOnce
  cases hi : order.journal.insert? (hostedRow item.record phase order.providerOrderRef now) with
  | none =>
      refine ⟨h, ?_⟩
      rw [Table.insert?] at hi
      split at hi
      · rename_i hm
        obtain ⟨row, hrow, he⟩ := List.mem_map.mp hm
        exact ⟨row, hrow, congrArg (·.1) he, congrArg (·.2.2) he⟩
      · cases hi
  | some journal =>
      obtain ⟨hrows, _⟩ := Table.rows_insert? order.journal journal _ hi
      refine ⟨?_, ?_⟩
      · refine h.outcome journal _ hrows rfl (h.requested_nonneg _ _ hr) hp.ne_requested.1 hverdict hr.has ?_
        exact fun hu => absurd hu hp.ne_requested.2
      · refine ⟨hostedRow item.record phase order.providerOrderRef now, ?_, rfl, rfl⟩
        dsimp only [Option.getD_some]
        rw [hrows]
        exact List.mem_append_right _ (List.mem_singleton_self _)

theorem recordedPhase_reconciled (phase : Phase) (h : Phase.final phase) :
    recordedPhase (reconciledStatus phase) = phase := by
  rcases h with rfl | rfl <;> rfl

theorem LedgerInvariant.check (h : LedgerInvariant order) (index : ℕ) (check : Check) (given : Given)
    (hc : check ∈ order.checks) : LedgerInvariant (order.check index check given) := by
  have hfits := h.checks check hc
  have hr := h.items check hc
  unfold HostedOrder.check
  split
  next =>
    split
    · exact h.setCheck index check .done hc trivial
    · rename_i phase hread
      split_ifs with hverdict
      · exact h.setCheck index check _ hc ⟨readRefund_final check.item given phase hread, hverdict⟩
      · exact h
  next phase hstage =>
    rw [hstage] at hfits
    obtain ⟨hrecorded, hhas⟩ := h.recordOnce check.item phase given.now hr hfits.1 hfits.2
    exact hrecorded.setCheck index check _ hc ⟨hfits.1, hhas⟩
  next phase hstage =>
    rw [hstage] at hfits
    split
    · rename_i later hs
      have hlater := h.setOrderAdjustmentStatus later check.item.reference _
        (by rw [recordedPhase_reconciled phase hfits.1]; exact hfits.2) hs
      refine hlater.setCheck index check .done ?_ trivial
      unfold HostedOrder.setOrderAdjustmentStatus at hs
      split at hs
      · cases hs
      · split_ifs at hs
        cases hs
        exact hc
    · refine h.setCheck index check _ hc ?_
      split_ifs with hsucceeded
      · rw [hsucceeded] at hfits
        exact hfits.2
      · trivial
  next hstage =>
    rw [hstage] at hfits
    refine (h.applyOrderChange check.item.reference .completed check.item.amount hr hfits).setCheck index check .done
      ?_ trivial
    unfold HostedOrder.applyOrderChange
    split <;> exact hc
  next => exact h

theorem LedgerInvariant.crashCheck (h : LedgerInvariant order) (index : ℕ) (check : Check)
    (hc : check ∈ order.checks) : LedgerInvariant (order.crashCheck index check) := by
  have hinterrupt : ∀ phase, LedgerInvariant
      ((order.interrupt check.item.reference phase).setCheck index check .done) := by
    intro phase
    refine (h.interrupt check.item.reference phase).setCheck index check .done ?_ trivial
    unfold HostedOrder.interrupt
    split_ifs <;> exact hc
  unfold HostedOrder.crashCheck
  split
  · exact hinterrupt _
  · exact hinterrupt _
  · exact h.setCheck index check .done hc trivial

theorem outstandingRefund_requested (rows : List HostedRow) (now : ℤ) (reference : Reference)
    (item : OutstandingRefund) (h : outstandingRefund rows now reference = some item) :
    ∃ row ∈ rows, row.reference = item.reference ∧ row.phase = .requested ∧ row.amountMinorUnits = item.amount := by
  unfold outstandingRefund at h
  dsimp only at h
  split at h
  · cases h
  · rename_i requested hf
    split_ifs at h
    cases h
    have hmem := List.mem_of_find?_eq_some hf
    rw [List.mem_filter, decide_eq_true_eq] at hmem
    have hphase := List.find?_some hf
    rw [decide_eq_true_eq] at hphase
    exact ⟨requested, hmem.1, hmem.2, hphase, rfl⟩

theorem outstandingRefunds_requested (rows : List HostedRow) (now : ℤ) (item : OutstandingRefund)
    (h : item ∈ outstandingRefunds rows now) :
    ∃ row ∈ rows, row.reference = item.reference ∧ row.phase = .requested ∧ row.amountMinorUnits = item.amount := by
  obtain ⟨reference, _, hitem⟩ := List.mem_filterMap.mp (List.mem_of_mem_take h)
  obtain ⟨row, hr, hrest⟩ := outstandingRefund_requested _ now reference item hitem
  have hsorted := List.mem_of_mem_take hr
  rw [List.mem_insertionSort] at hsorted
  exact ⟨row, (List.mem_filter.mp hsorted).1, hrest⟩

theorem LedgerInvariant.select (h : LedgerInvariant order) (now : ℤ) :
    LedgerInvariant (order.step (.select now)) := by
  have hmem : ∀ check ∈ (order.step (.select now)).checks, check ∈ order.checks ∨
      (order.Requested check.item.reference check.item.amount ∧ check.stage = .selected) := by
    intro check hc
    rcases List.mem_append.mp hc with hc | hc
    · exact .inl hc
    · obtain ⟨item, hi, rfl⟩ := List.mem_map.mp hc
      exact .inr ⟨outstandingRefunds_requested _ now item hi, rfl⟩
  refine { h with items := ?_, checks := ?_ }
  · intro check hc
    rcases hmem check hc with hc | ⟨hr, _⟩
    · exact h.items check hc
    · exact hr
  · intro check hc
    rcases hmem check hc with hc | ⟨_, hs⟩
    · exact h.checks check hc
    · rw [hs]
      trivial

end Checks

section Steps

variable {order : HostedOrder}

theorem LedgerInvariant.request (h : LedgerInvariant order) (number : ℕ) (requestKey : String) (repeatable : Bool)
    (decisionId : ℕ) (amount : ℤ) :
    LedgerInvariant (order.step (.request number requestKey repeatable decisionId amount)) := by
  unfold HostedOrder.step
  dsimp only
  by_cases hamount : amount < 1
  · rw [if_pos hamount]
    exact h
  · rw [if_neg hamount]
    cases hi : order.calls.insert?
        { number, requestKey, decisionId, amount, stage := if repeatable then .lookup false else .deciding } with
    | none => exact h
    | some calls =>
        have hmem : ∀ call ∈ calls.rows, call ∈ order.calls.rows ∨
            (1 ≤ call.amount ∧ (call.stage = .lookup false ∨ call.stage = .deciding)) := by
          intro call hc
          rw [(Table.rows_insert? order.calls calls _ hi).1, List.mem_append, List.mem_singleton] at hc
          rcases hc with hc | rfl
          · exact .inl hc
          · refine .inr ⟨by dsimp only; omega, ?_⟩
            cases repeatable
            · exact .inr rfl
            · exact .inl rfl
        have hland : ∀ call ∈ calls.rows, call.stage.inFlight = true → call ∈ order.calls.rows := by
          intro call hc hf
          rcases hmem call hc with hc | ⟨_, hs | hs⟩
          · exact hc
          · rw [hs] at hf
            cases hf
          · rw [hs] at hf
            cases hf
        refine { h with amounts := ?_, calls := ?_, flight := ?_ }
        · intro call hc
          rcases hmem call hc with hc | ⟨ha, _⟩
          · exact h.amounts call hc
          · exact ha
        · intro call hc
          rcases hmem call hc with hc | ⟨_, hs | hs⟩
          · exact h.calls call hc
          · rw [hs]
            trivial
          · rw [hs]
            trivial
        · intro call hc hf
          obtain ⟨hunknown, hsingle⟩ := h.flight call (hland call hc hf) hf
          exact ⟨hunknown, fun other ho hf' href => hsingle other (hland other ho hf') hf' href⟩

theorem LedgerInvariant.adjust (h : LedgerInvariant order) (number : ℕ) (type : String) (status : AdjustmentStatus)
    (totals : List TotalLine) : LedgerInvariant (order.step (.adjust number type status totals)) := by
  unfold HostedOrder.step
  dsimp only
  split_ifs
  · exact h
  · cases hi : order.adjustments.insert? ⟨.recorded number, type, status, totals⟩ with
    | none => exact h
    | some adjustments =>
        refine h.setAdjustments adjustments order.interrupted fun adjustment ha => ?_
        rw [(Table.rows_insert? order.adjustments adjustments _ hi).1, List.mem_append, List.mem_singleton] at ha
        rcases ha with ha | rfl
        · exact h.adjustments adjustment ha
        · intro reference hid
          cases hid

theorem LedgerInvariant.step (h : LedgerInvariant order) (step : HostedStep) : LedgerInvariant (order.step step) := by
  cases step with
  | request number requestKey repeatable decisionId amount =>
      exact h.request number requestKey repeatable decisionId amount
  | advance number given =>
      unfold HostedOrder.step
      dsimp only
      split
      · rename_i call hf
        exact h.advance call given (order.calls.mem_of_find? number call hf).1
      · exact h
  | crash number =>
      unfold HostedOrder.step
      dsimp only
      split
      · rename_i call hf
        exact h.crash call (order.calls.mem_of_find? number call hf).1
      · exact h
  | decideVerdict reference refunded => exact h.decideVerdict reference refunded
  | select now => exact h.select now
  | check index given =>
      unfold HostedOrder.step
      dsimp only
      split
      · rename_i check hget
        exact h.check index check given (List.mem_of_getElem? hget)
      · exact h
  | crashCheck index =>
      unfold HostedOrder.step
      dsimp only
      split
      · rename_i check hget
        exact h.crashCheck index check (List.mem_of_getElem? hget)
      · exact h
  | adjust number type status totals => exact h.adjust number type status totals

theorem LedgerInvariant.run (steps : List HostedStep) (h : LedgerInvariant order) :
    LedgerInvariant (order.run steps) := by
  induction steps generalizing order with
  | nil => exact h
  | cons step rest ih => exact ih (h.step step)

end Steps

end AgenticOrg.Commerce.Hosted
