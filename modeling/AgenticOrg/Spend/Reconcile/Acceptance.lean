import Mathlib.Data.List.Pairwise
import AgenticOrg.Lib.Fallible
import AgenticOrg.Spend.Reconcile.Runs
import AgenticOrg.Spend.Reconcile.Theorems

namespace AgenticOrg.Spend

open Tables Fallible

section Carrying

theorem matchLines_not_accepted (names : Naming) (provider : String) (daysInMonth : Nat)
    (lines : List InvoiceLine) (priced : List PricedGroup) :
    ∀ item ∈ matchLines names provider daysInMonth lines priced, item.status ≠ .accepted := by
  have husage : ∀ key entry members, (usageItem key entry members).status ≠ .accepted := by
    intro key entry members
    dsimp only [usageItem, statusFor]
    split
    · decide
    · decide
  intro item hi
  unfold matchLines at hi
  rcases List.mem_append.mp hi with hi | hi
  · rcases List.mem_append.mp hi with hi | hi
    · exact takeGroups_forall (·.status ≠ .accepted) husage _ _ item hi
    · exact leftoverItems_forall (·.status ≠ .accepted) (fun key => husage key none) _ item hi
  · obtain ⟨line, _, rfl⟩ := List.mem_map.mp hi
    exact ItemStatus.noConfusion

-- What may be handed over: accepted items of the previous run, none by a refused actor.
structure Offers (previous : List StoredItem) (refused : List String)
    (accepted : List (CarryKey × StoredItem)) : Prop where
  keys : ∀ entry ∈ accepted, entry.1 = entry.2.carryKey
  sources : ∀ entry ∈ accepted, entry.2 ∈ previous ∧ entry.2.status = .accepted ∧
    ∃ acceptance, entry.2.acceptance = some acceptance ∧ acceptance.actor ∉ refused

theorem Offers.offerAccepted (previous : List StoredItem) (refused : List String)
    (accepted : List (CarryKey × StoredItem)) (h : Offers previous refused accepted) (old : StoredItem)
    (ho : old ∈ previous) : Offers previous refused (offerAccepted refused accepted old) := by
  unfold Spend.offerAccepted
  split
  · exact h
  · rename_i acceptance hacc
    split
    · rename_i htest
      simp only [Bool.and_eq_true, decide_eq_true_eq, Bool.not_eq_true', List.contains_eq_mem,
        decide_eq_false_iff_not] at htest
      constructor
      · intro entry he
        rcases List.mem_append.mp he with he | he
        · exact h.keys entry he
        · rw [List.mem_singleton.mp he]
      · intro entry he
        rcases List.mem_append.mp he with he | he
        · exact h.sources entry he
        · rw [List.mem_singleton.mp he]
          exact ⟨ho, htest.1.1.2, acceptance, hacc, htest.1.2⟩
    · exact h

theorem offers_acceptedBefore (previous : List StoredItem) (refused : List String) :
    Offers previous refused (acceptedBefore previous refused) := by
  have hfold : ∀ (rest : List StoredItem) (accepted : List (CarryKey × StoredItem)),
      (∀ old ∈ rest, old ∈ previous) → Offers previous refused accepted →
      Offers previous refused (rest.foldl (Spend.offerAccepted refused) accepted) := by
    intro rest
    induction rest with
    | nil => exact fun _ _ h => h
    | cons old rest ih =>
        intro accepted hin h
        exact ih _ (fun other ho => hin other (List.mem_cons_of_mem _ ho))
          (h.offerAccepted previous refused accepted old (hin old List.mem_cons_self))
  refine hfold previous [] (fun _ h => h) ⟨?_, ?_⟩
  · exact fun _ h => absurd h List.not_mem_nil
  · exact fun _ h => absurd h List.not_mem_nil

-- An item takes over an offer of its own key.
theorem carryOver_mem (items : List Item) (accepted : List (CarryKey × StoredItem))
    (entry : Item × Option StoredItem) (he : entry ∈ carryOver items accepted) :
    entry.1 ∈ items ∧ ∀ old, entry.2 = some old → (entry.1.carryKey, old) ∈ accepted := by
  induction items generalizing accepted with
  | nil => exact absurd he List.not_mem_nil
  | cons item rest ih =>
      have hskip (taken : List (CarryKey × StoredItem)) (hsub : ∀ pair ∈ taken, pair ∈ accepted)
          (hr : entry ∈ carryOver rest taken) :
          entry.1 ∈ item :: rest ∧ ∀ old, entry.2 = some old → (entry.1.carryKey, old) ∈ accepted := by
        obtain ⟨hmem, hold⟩ := ih taken hr
        exact ⟨List.mem_cons_of_mem _ hmem, fun old ho => hsub _ (hold old ho)⟩
      rw [carryOver] at he
      split at he
      · split at he
        · rename_i found hf
          rcases List.mem_cons.mp he with rfl | he
          · refine ⟨List.mem_cons_self, ?_⟩
            intro old ho
            have hkey := List.find?_some hf
            simp only [decide_eq_true_eq] at hkey
            rw [← Option.some.inj ho, ← hkey]
            exact List.mem_of_find?_eq_some hf
          · exact hskip _ (fun _ hp => List.mem_of_mem_filter hp) he
        · rcases List.mem_cons.mp he with rfl | he
          · exact ⟨List.mem_cons_self, fun old ho => by cases ho⟩
          · exact hskip accepted (fun _ hp => hp) he
      · rcases List.mem_cons.mp he with rfl | he
        · exact ⟨List.mem_cons_self, fun old ho => by cases ho⟩
        · exact hskip accepted (fun _ hp => hp) he

-- No two items take over under one key.
theorem carryOver_pairwise (items : List Item) (accepted : List (CarryKey × StoredItem)) :
    (carryOver items accepted).Pairwise fun a b =>
      a.2.isSome = true → b.2.isSome = true → a.1.carryKey ≠ b.1.carryKey := by
  induction items generalizing accepted with
  | nil => exact .nil
  | cons item rest ih =>
      rw [carryOver]
      split
      · split
        · refine List.pairwise_cons.mpr ⟨?_, ih _⟩
          intro entry he _ hsome hkey
          obtain ⟨old, ho⟩ := Option.isSome_iff_exists.mp hsome
          have hpair := (carryOver_mem rest _ entry he).2 old ho
          have hne := (List.mem_filter.mp hpair).2
          simp [← hkey] at hne
        · refine List.pairwise_cons.mpr ⟨?_, ih _⟩
          intro _ _ hn
          cases hn
      · refine List.pairwise_cons.mpr ⟨?_, ih _⟩
        intro _ _ hn
        cases hn

theorem mem_itemRows (runId : String) (itemId : Nat → String) (index : Nat)
    (entries : List (Item × Option StoredItem)) (row : StoredItem)
    (hr : row ∈ itemRows runId itemId index entries) :
    ∃ entry ∈ entries, ∃ id, row = itemRow runId id entry := by
  induction entries generalizing index with
  | nil => exact absurd hr List.not_mem_nil
  | cons entry rest ih =>
      rcases List.mem_cons.mp hr with rfl | hr
      · exact ⟨entry, List.mem_cons_self, _, rfl⟩
      · obtain ⟨found, hf, hrow⟩ := ih (index + 1) hr
        exact ⟨found, List.mem_cons_of_mem _ hf, hrow⟩

theorem itemRows_pairwise (runId : String) (itemId : Nat → String) (index : Nat)
    (entries : List (Item × Option StoredItem)) (R : StoredItem → StoredItem → Prop)
    (h : entries.Pairwise fun a b => ∀ i j, R (itemRow runId i a) (itemRow runId j b)) :
    (itemRows runId itemId index entries).Pairwise R := by
  induction entries generalizing index with
  | nil => exact .nil
  | cons entry rest ih =>
      obtain ⟨hhead, hrest⟩ := List.pairwise_cons.mp h
      refine List.pairwise_cons.mpr ⟨?_, ih (index + 1) hrest⟩
      intro row hr
      obtain ⟨found, hf, id, rfl⟩ := mem_itemRows runId itemId (index + 1) rest row hr
      exact hhead found hf _ _

theorem rows_insertItems (rows : List StoredItem) (items items' : Table StoredItem)
    (h : insertItems rows items = .ok items') : items'.rows = items.rows ++ rows := by
  induction rows generalizing items with
  | nil =>
      cases h
      rw [List.append_nil]
  | cons row rest ih =>
      rw [insertItems] at h
      split at h
      · cases h
      · rename_i next hins
        rw [ih next h, (Table.rows_insert? items next row hins).1, List.append_assoc, List.singleton_append]

end Carrying

section Sound

-- None of the invoices was imported by this actor.
def Cleared (invoices : Table Invoice) (ids : List String) (actor : String) : Prop :=
  ∀ invoice ∈ invoices.rows, invoice.id ∈ ids → invoice.importedBy ≠ actor

-- What holds of the stored reconciliations after any calls.
structure Sound (ledger : Ledger) : Prop where
  invoiceIds : ∀ run ∈ ledger.runs.rows, ∀ id ∈ run.invoiceIds, ∃ invoice ∈ ledger.invoices.rows, invoice.id = id
  itemRuns : ∀ item ∈ ledger.items.rows, ∃ run ∈ ledger.runs.rows, run.id = item.reconciliationId
  items : ∀ item ∈ ledger.items.rows, item.status = .accepted →
    ∃ acceptance, item.acceptance = some acceptance ∧ ∀ run ∈ ledger.runs.rows,
      run.id = item.reconciliationId → Cleared ledger.invoices run.invoiceIds acceptance.actor
  runs : ∀ run ∈ ledger.runs.rows, run.status = .accepted →
    ∃ acceptance, run.acceptance = some acceptance ∧
      Cleared ledger.invoices run.invoiceIds acceptance.actor
  carried : ∀ item ∈ ledger.items.rows, ∀ oldId, item.carriedFrom = some oldId →
    item.status = .accepted ∧ ∃ old ∈ ledger.items.rows, old.id = oldId ∧ old.status = .accepted ∧
      old.acceptance = item.acceptance ∧ old.carryKey = item.carryKey ∧
      ∀ run ∈ ledger.runs.rows, run.id = old.reconciliationId → run.superseded = true
  once : ∀ item ∈ ledger.items.rows, ∀ other ∈ ledger.items.rows, ∀ oldId,
    item.carriedFrom = some oldId → other.carriedFrom = some oldId → item = other

theorem sound_empty : Sound .empty where
  invoiceIds := fun _ h => absurd h List.not_mem_nil
  itemRuns := fun _ h => absurd h List.not_mem_nil
  items := fun _ h => absurd h List.not_mem_nil
  runs := fun _ h => absurd h List.not_mem_nil
  carried := fun _ h => absurd h List.not_mem_nil
  once := fun _ h => absurd h List.not_mem_nil

-- Invoices keep their ids and importers; a new one has an id of its own.
structure Grown (before after : Table Invoice) : Prop where
  kept : ∀ invoice ∈ before.rows, ∃ found ∈ after.rows, found.id = invoice.id
  from_ : ∀ invoice ∈ after.rows,
    (∃ old ∈ before.rows, old.id = invoice.id ∧ old.importedBy = invoice.importedBy) ∨
      ∀ old ∈ before.rows, old.id ≠ invoice.id

theorem Grown.modify (invoices : Table Invoice) (id byId : String) :
    Grown invoices (invoices.modify id (supersedeInvoice byId) fun _ => rfl) where
  kept := by
    intro invoice hi
    by_cases he : invoice.id = id
    · exact ⟨supersedeInvoice byId invoice, List.mem_map.mpr ⟨invoice, hi, if_pos he⟩, rfl⟩
    · exact ⟨invoice, Table.mem_modify_of_ne invoices id _ _ invoice hi he, rfl⟩
  from_ := by
    intro invoice hi
    obtain ⟨old, ho, hcase⟩ := Table.mem_modify invoices id _ _ invoice hi
    left
    rcases hcase with ⟨_, rfl⟩ | ⟨_, rfl⟩
    · exact ⟨invoice, ho, rfl, rfl⟩
    · exact ⟨old, ho, rfl, rfl⟩

theorem Grown.insert (invoices invoices' : Table Invoice) (invoice : Invoice)
    (h : insertInvoice invoices invoice = .ok invoices') : Grown invoices invoices' := by
  unfold insertInvoice at h
  split at h
  · cases h
  · rename_i hins
    cases h
    obtain ⟨hrows, hfresh⟩ := Table.rows_insert? invoices invoices' invoice hins
    constructor
    · intro old ho
      exact ⟨old, by rw [hrows]; exact List.mem_append_left _ ho, rfl⟩
    · intro found hf
      rw [hrows, List.mem_append, List.mem_singleton] at hf
      rcases hf with hf | rfl
      · exact .inl ⟨found, hf, rfl, rfl⟩
      · exact .inr hfresh

theorem Grown.trans (first second third : Table Invoice) (h : Grown first second)
    (h' : Grown second third) : Grown first third where
  kept := by
    intro invoice hi
    obtain ⟨found, hf, he⟩ := h.kept invoice hi
    obtain ⟨last, hl, he'⟩ := h'.kept found hf
    exact ⟨last, hl, he'.trans he⟩
  from_ := by
    intro invoice hi
    rcases h'.from_ invoice hi with ⟨found, hf, hid, hby⟩ | hfresh
    · rcases h.from_ found hf with ⟨old, ho, hid', hby'⟩ | hfresh
      · exact .inl ⟨old, ho, hid'.trans hid, hby'.trans hby⟩
      · exact .inr fun old ho he => hfresh old ho (he.trans hid.symm)
    · right
      intro old ho he
      obtain ⟨found, hf, hid⟩ := h.kept old ho
      exact hfresh found hf (hid.trans he)

theorem Cleared.grown (before after : Table Invoice) (hg : Grown before after) (ids : List String)
    (hids : ∀ id ∈ ids, ∃ invoice ∈ before.rows, invoice.id = id) (actor : String)
    (h : Cleared before ids actor) : Cleared after ids actor := by
  intro invoice hi hid
  rcases hg.from_ invoice hi with ⟨old, ho, hold, hby⟩ | hfresh
  · rw [← hby]
    exact h old ho (hold ▸ hid)
  · obtain ⟨old, ho, hold⟩ := hids invoice.id hid
    exact absurd hold (hfresh old ho)

theorem Sound.grown (ledger : Ledger) (h : Sound ledger) (invoices : Table Invoice)
    (hg : Grown ledger.invoices invoices) : Sound { ledger with invoices := invoices } where
  invoiceIds := by
    intro run hr id hid
    obtain ⟨invoice, hi, rfl⟩ := h.invoiceIds run hr id hid
    exact hg.kept invoice hi
  itemRuns := h.itemRuns
  items := by
    intro item hi ha
    obtain ⟨acceptance, hacc, hclear⟩ := h.items item hi ha
    exact ⟨acceptance, hacc, fun run hr he =>
      (hclear run hr he).grown _ _ hg _ (h.invoiceIds run hr) _⟩
  runs := by
    intro run hr ha
    obtain ⟨acceptance, hacc, hclear⟩ := h.runs run hr ha
    exact ⟨acceptance, hacc, hclear.grown _ _ hg _ (h.invoiceIds run hr) _⟩
  carried := h.carried
  once := h.once

theorem Sound.importInvoice (ledger ledger' : Ledger) (h : Sound ledger) (newId : String)
    (file : InvoiceFile) (who : String) (now : Int) (replace dryRun : Bool)
    (hr : importInvoice ledger newId file who now replace dryRun = .ok ledger') : Sound ledger' := by
  unfold Spend.importInvoice at hr
  dsimp only at hr
  split at hr
  · split at hr
    · cases hr
    · obtain ⟨_, _, hr⟩ := (bind_ok _ _ _).mp hr
      obtain ⟨_, _, hr⟩ := (bind_ok _ _ _).mp hr
      split at hr
      · cases hr
        exact h
      · obtain ⟨invoices, hins, hr⟩ := (bind_ok _ _ _).mp hr
        rw [pure_ok] at hr
        rw [← hr]
        exact h.grown ledger invoices
          ((Grown.modify ledger.invoices _ newId).trans _ _ _ (Grown.insert _ invoices _ hins))
  · obtain ⟨_, _, hr⟩ := (bind_ok _ _ _).mp hr
    obtain ⟨_, _, hr⟩ := (bind_ok _ _ _).mp hr
    split at hr
    · cases hr
      exact h
    · obtain ⟨invoices, hins, hr⟩ := (bind_ok _ _ _).mp hr
      rw [pure_ok] at hr
      rw [← hr]
      exact h.grown ledger invoices (Grown.insert _ invoices _ hins)

end Sound

section Accepting

-- Runs keep their ids and invoices, and stay superseded.
structure Reworked (before after : Table Reconciliation) : Prop where
  kept : ∀ run ∈ before.rows, ∃ found ∈ after.rows, found.id = run.id
  from_ : ∀ run ∈ after.rows, ∃ old ∈ before.rows, old.id = run.id ∧ old.invoiceIds = run.invoiceIds ∧
    (old.superseded = true → run.superseded = true)

theorem Reworked.modify (runs : Table Reconciliation) (id : String) (f : Reconciliation → Reconciliation)
    (hf : ∀ run, (f run).id = run.id) (hids : ∀ run, (f run).invoiceIds = run.invoiceIds)
    (hs : ∀ run, run.superseded = true → (f run).superseded = true) : Reworked runs (runs.modify id f hf) where
  kept := by
    intro run hr
    by_cases he : run.id = id
    · exact ⟨f run, List.mem_map.mpr ⟨run, hr, if_pos he⟩, hf run⟩
    · exact ⟨run, Table.mem_modify_of_ne runs id f hf run hr he, rfl⟩
  from_ := by
    intro run hr
    obtain ⟨old, ho, hcase⟩ := Table.mem_modify runs id f hf run hr
    rcases hcase with ⟨_, rfl⟩ | ⟨_, rfl⟩
    · exact ⟨run, ho, rfl, rfl, fun h => h⟩
    · exact ⟨old, ho, (hf old).symm, (hids old).symm, hs old⟩

theorem Sound.reworked (ledger : Ledger) (h : Sound ledger) (runs : Table Reconciliation)
    (hw : Reworked ledger.runs runs)
    (hruns : ∀ run ∈ runs.rows, run.status = .accepted → ∃ acceptance,
      run.acceptance = some acceptance ∧ Cleared ledger.invoices run.invoiceIds acceptance.actor) :
    Sound { ledger with runs := runs } where
  invoiceIds := by
    intro run hr id hid
    obtain ⟨old, ho, _, hids, _⟩ := hw.from_ run hr
    exact h.invoiceIds old ho id (hids ▸ hid)
  itemRuns := by
    intro item hi
    obtain ⟨run, hr, he⟩ := h.itemRuns item hi
    obtain ⟨found, hf, hid⟩ := hw.kept run hr
    exact ⟨found, hf, hid.trans he⟩
  items := by
    intro item hi ha
    obtain ⟨acceptance, hacc, hclear⟩ := h.items item hi ha
    refine ⟨acceptance, hacc, fun run hr he => ?_⟩
    obtain ⟨old, ho, hid, hids, _⟩ := hw.from_ run hr
    rw [← hids]
    exact hclear old ho (hid.trans he)
  runs := hruns
  carried := by
    intro item hi oldId hc
    obtain ⟨hs, old, ho, hid, hold, hacc, hkey, hsup⟩ := h.carried item hi oldId hc
    refine ⟨hs, old, ho, hid, hold, hacc, hkey, fun run hr he => ?_⟩
    obtain ⟨before, hb, hbid, _, hstay⟩ := hw.from_ run hr
    exact hstay (hsup before hb (hbid.trans he))
  once := h.once

-- Accepting an item that needs review, by somebody who imported none of the invoices.
theorem Sound.acceptRow (ledger : Ledger) (h : Sound ledger) (item : StoredItem)
    (hi : item ∈ ledger.items.rows) (hs : item.status = .needsReview) (acceptance : Acceptance)
    (hclear : ∀ run ∈ ledger.runs.rows, run.id = item.reconciliationId →
      Cleared ledger.invoices run.invoiceIds acceptance.actor) :
    Sound { ledger with items := ledger.items.modify item.id (acceptRow acceptance) fun _ => rfl } := by
  -- the item itself is carried from nowhere, since a carried one is accepted
  have hcases : ∀ row ∈ (ledger.items.modify item.id (Spend.acceptRow acceptance) fun _ => rfl).rows,
      (row ∈ ledger.items.rows ∧ row.id ≠ item.id) ∨ row = Spend.acceptRow acceptance item := by
    intro row hr
    obtain ⟨old, ho, hcase⟩ := Table.mem_modify ledger.items item.id _ _ row hr
    rcases hcase with ⟨hne, rfl⟩ | ⟨he, rfl⟩
    · exact .inl ⟨ho, hne⟩
    · rw [Table.eq_of_key ledger.items old item ho hi he]
      exact .inr rfl
  have hfree : ∀ row ∈ (ledger.items.modify item.id (Spend.acceptRow acceptance) fun _ => rfl).rows,
      ∀ oldId, row.carriedFrom = some oldId → row ∈ ledger.items.rows := by
    intro row hr oldId hc
    rcases hcases row hr with ⟨hrow, _⟩ | rfl
    · exact hrow
    · have hacc := (h.carried item hi oldId hc).1
      rw [hs] at hacc
      cases hacc
  constructor
  · exact h.invoiceIds
  · intro row hr
    rcases hcases row hr with ⟨hrow, _⟩ | rfl
    · exact h.itemRuns row hrow
    · exact h.itemRuns item hi
  · intro row hr ha
    rcases hcases row hr with ⟨hrow, _⟩ | rfl
    · exact h.items row hrow ha
    · exact ⟨acceptance, rfl, hclear⟩
  · exact h.runs
  · intro row hr oldId hc
    obtain ⟨hstatus, old, ho, hid, hold, hacc, hkey, hsup⟩ := h.carried row (hfree row hr oldId hc) oldId hc
    refine ⟨hstatus, old, ?_, hid, hold, hacc, hkey, hsup⟩
    refine Table.mem_modify_of_ne ledger.items item.id (Spend.acceptRow acceptance) (fun _ => rfl) old ho ?_
    intro he
    rw [Table.eq_of_key ledger.items old item ho hi he, hs] at hold
    cases hold
  · intro row hr other ho oldId hc hc'
    exact h.once row (hfree row hr oldId hc) other (hfree other ho oldId hc') oldId hc hc'

theorem cleared_of_checkChecker (ledger : Ledger) (run : Reconciliation) (who : String)
    (h : checkChecker ledger run who = .ok ()) : Cleared ledger.invoices run.invoiceIds who := by
  unfold checkChecker at h
  dsimp only at h
  split at h
  · cases h
  · rename_i hno
    intro invoice hi hid he
    refine hno (List.contains_iff_mem.mpr (List.mem_map.mpr ⟨invoice, ?_, he⟩))
    exact List.mem_filter.mpr ⟨hi, List.contains_iff_mem.mpr hid⟩

theorem mem_of_lockedRun (ledger : Ledger) (runId : String) (run : Reconciliation)
    (h : lockedRun ledger runId = .ok run) : run ∈ ledger.runs.rows := by
  unfold lockedRun at h
  split at h
  · cases h
  · rename_i hf
    cases h
    exact (Table.mem_of_find? ledger.runs runId run hf).1

theorem Sound.acceptItem (ledger ledger' : Ledger) (h : Sound ledger) (runId itemId reason who : String)
    (now : Int) (hr : acceptItem ledger runId itemId reason who now = .ok ledger') : Sound ledger' := by
  unfold Spend.acceptItem at hr
  obtain ⟨run, hlock, hr⟩ := (bind_ok _ _ _).mp hr
  have hrun := mem_of_lockedRun ledger runId run hlock
  split at hr
  · cases hr
  · rename_i item hf
    have hi : item ∈ ledger.items.rows := List.mem_of_find?_eq_some hf
    have hfound := List.find?_some hf
    simp only [Bool.and_eq_true, decide_eq_true_eq] at hfound
    split at hr
    · cases hr
    · rename_i hopen
      rw [not_or, not_not] at hopen
      obtain ⟨_, hcheck, hr⟩ := (bind_ok _ _ _).mp hr
      rw [pure_ok] at hr
      have hclear := cleared_of_checkChecker ledger run who hcheck
      have hitems := h.acceptRow ledger item hi hopen.2 ⟨who, now, reason⟩ (by
        intro other ho he
        rw [Table.eq_of_key ledger.runs other run ho hrun (he.trans hfound.2)]
        exact hclear)
      rw [← hr]
      refine hitems.reworked _ _ (Reworked.modify ledger.runs run.id _ _ ?_ ?_) ?_
      · intro other
        unfold reviewRun
        split <;> rfl
      · intro other hs
        unfold reviewRun
        split <;> exact hs
      · intro found hfound ha
        obtain ⟨old, ho, hcase⟩ := Table.mem_modify ledger.runs run.id _ _ found hfound
        rcases hcase with ⟨_, rfl⟩ | ⟨he, rfl⟩
        · exact h.runs found ho ha
        · have hsame := Table.eq_of_key ledger.runs old run ho hrun he
          subst hsame
          unfold reviewRun at ha ⊢
          split at ha
          · rename_i hlast
            rw [if_pos hlast]
            exact ⟨_, rfl, hclear⟩
          · rename_i hlast
            rw [if_neg hlast]
            exact h.runs old hrun ha

theorem Sound.acceptRun (ledger ledger' : Ledger) (h : Sound ledger) (runId reason who : String)
    (now : Int) (hr : acceptRun ledger runId reason who now = .ok ledger') : Sound ledger' := by
  unfold Spend.acceptRun at hr
  obtain ⟨run, hlock, hr⟩ := (bind_ok _ _ _).mp hr
  have hrun := mem_of_lockedRun ledger runId run hlock
  split at hr
  · cases hr
  · obtain ⟨_, hcheck, hr⟩ := (bind_ok _ _ _).mp hr
    rw [pure_ok] at hr
    rw [← hr]
    refine h.reworked ledger _ (Reworked.modify ledger.runs run.id _ _ (fun _ => rfl) fun _ hs => hs) ?_
    intro found hfound ha
    obtain ⟨old, ho, hcase⟩ := Table.mem_modify ledger.runs run.id _ _ found hfound
    rcases hcase with ⟨_, rfl⟩ | ⟨he, rfl⟩
    · exact h.runs found ho ha
    · have hsame := Table.eq_of_key ledger.runs old run ho hrun he
      subst hsame
      exact ⟨_, rfl, cleared_of_checkChecker ledger old who hcheck⟩

end Accepting

section Running

theorem mem_supersedeRuns (earlier : List Reconciliation) (runs : Table Reconciliation)
    (run : Reconciliation) (hr : run ∈ (supersedeRuns runs earlier).rows) :
    ∃ old ∈ runs.rows, run = supersedeRun old ∨ (run = old ∧ ∀ other ∈ earlier, other.id ≠ run.id) := by
  induction earlier generalizing runs with
  | nil => exact ⟨run, hr, .inr ⟨rfl, fun _ h => absurd h List.not_mem_nil⟩⟩
  | cons first rest ih =>
      obtain ⟨mid, hm, hcase⟩ := ih (runs.modify first.id supersedeRun fun _ => rfl) hr
      obtain ⟨old, ho, hold⟩ := Table.mem_modify runs first.id supersedeRun (fun _ => rfl) mid hm
      refine ⟨old, ho, ?_⟩
      rcases hcase with rfl | ⟨rfl, hothers⟩
      · left
        rcases hold with ⟨_, rfl⟩ | ⟨_, rfl⟩
        · rfl
        · rfl
      · rcases hold with ⟨hne, rfl⟩ | ⟨_, rfl⟩
        · refine .inr ⟨rfl, ?_⟩
          intro other hother
          rcases List.mem_cons.mp hother with rfl | hother
          · exact Ne.symm hne
          · exact hothers other hother
        · exact .inl rfl

theorem Reworked.supersedeRuns (earlier : List Reconciliation) (runs : Table Reconciliation) :
    Reworked runs (supersedeRuns runs earlier) where
  kept := by
    intro run hr
    induction earlier generalizing runs run with
    | nil => exact ⟨run, hr, rfl⟩
    | cons first rest ih =>
        obtain ⟨found, hf, he⟩ := (Reworked.modify runs first.id supersedeRun (fun _ => rfl) (fun _ => rfl)
          fun _ _ => rfl).kept run hr
        obtain ⟨last, hl, he'⟩ := ih (runs.modify first.id supersedeRun fun _ => rfl) found hf
        exact ⟨last, hl, he'.trans he⟩
  from_ := by
    intro run hr
    obtain ⟨old, ho, hcase⟩ := mem_supersedeRuns earlier runs run hr
    rcases hcase with rfl | ⟨rfl, _⟩
    · exact ⟨old, ho, rfl, rfl, fun _ => rfl⟩
    · exact ⟨run, ho, rfl, rfl, fun hs => hs⟩

theorem Sound.supersedeRuns (ledger : Ledger) (h : Sound ledger) (earlier : List Reconciliation) :
    Sound { ledger with runs := supersedeRuns ledger.runs earlier } := by
  refine h.reworked ledger _ (Reworked.supersedeRuns earlier ledger.runs) ?_
  intro run hr ha
  obtain ⟨old, ho, hcase⟩ := mem_supersedeRuns earlier ledger.runs run hr
  rcases hcase with rfl | ⟨rfl, _⟩
  · exact h.runs old ho ha
  · exact h.runs run ho ha

-- Not carried from the same item.
def CarryApart (a b : StoredItem) : Prop := ∀ oldId, a.carriedFrom = some oldId → b.carriedFrom ≠ some oldId

instance : Std.Symm CarryApart := ⟨fun _ _ h oldId hb ha => h oldId ha hb⟩

-- What has to hold of a new run and its rows.
structure NewRun (ledger : Ledger) (run : Reconciliation) (rows : List StoredItem) : Prop where
  invoiceIds : ∀ id ∈ run.invoiceIds, ∃ invoice ∈ ledger.invoices.rows, invoice.id = id
  parents : ∀ row ∈ rows, row.reconciliationId = run.id
  items : ∀ row ∈ rows, row.status = .accepted → ∃ acceptance, row.acceptance = some acceptance ∧
    Cleared ledger.invoices run.invoiceIds acceptance.actor
  run : run.status = .accepted → ∃ acceptance, run.acceptance = some acceptance ∧
    Cleared ledger.invoices run.invoiceIds acceptance.actor
  carried : ∀ row ∈ rows, ∀ oldId, row.carriedFrom = some oldId →
    row.status = .accepted ∧ ∃ old ∈ ledger.items.rows, old.id = oldId ∧ old.status = .accepted ∧
      old.acceptance = row.acceptance ∧ old.carryKey = row.carryKey ∧
      ∀ run ∈ ledger.runs.rows, run.id = old.reconciliationId → run.superseded = true
  once : rows.Pairwise CarryApart
  fresh : ∀ row ∈ rows, ∀ oldId, row.carriedFrom = some oldId →
    ∀ item ∈ ledger.items.rows, item.carriedFrom ≠ some oldId

theorem Sound.newRun (ledger : Ledger) (h : Sound ledger) (run : Reconciliation) (rows : List StoredItem)
    (hn : NewRun ledger run rows) (runs : Table Reconciliation) (hruns : insertRun ledger.runs run = .ok runs)
    (items : Table StoredItem) (hitems : insertItems rows ledger.items = .ok items) :
    Sound { ledger with runs := runs, items := items } := by
  have hrows := rows_insertItems rows ledger.items items hitems
  obtain ⟨hrunRows, hfresh⟩ : runs.rows = ledger.runs.rows ++ [run] ∧
      ∀ other ∈ ledger.runs.rows, other.id ≠ run.id := by
    unfold insertRun at hruns
    split at hruns
    · cases hruns
    · rename_i hins
      cases hruns
      exact Table.rows_insert? ledger.runs runs run hins
  -- no item there before belongs to the new run
  have hold : ∀ item ∈ ledger.items.rows, run.id ≠ item.reconciliationId := by
    intro item hi he
    obtain ⟨parent, hp, hid⟩ := h.itemRuns item hi
    exact hfresh parent hp (hid.trans he.symm)
  constructor
  · intro found hf
    rw [hrunRows, List.mem_append, List.mem_singleton] at hf
    rcases hf with hf | rfl
    · exact h.invoiceIds found hf
    · exact hn.invoiceIds
  · intro item hi
    rw [hrows, List.mem_append] at hi
    rw [hrunRows]
    rcases hi with hi | hi
    · obtain ⟨parent, hp, hid⟩ := h.itemRuns item hi
      exact ⟨parent, List.mem_append_left _ hp, hid⟩
    · exact ⟨run, List.mem_append_right _ (List.mem_singleton_self run), (hn.parents item hi).symm⟩
  · intro item hi ha
    rw [hrows, List.mem_append] at hi
    rcases hi with hi | hi
    · obtain ⟨acceptance, hacc, hclear⟩ := h.items item hi ha
      refine ⟨acceptance, hacc, fun found hf he => ?_⟩
      rw [hrunRows, List.mem_append, List.mem_singleton] at hf
      rcases hf with hf | rfl
      · exact hclear found hf he
      · exact absurd he (hold item hi)
    · obtain ⟨acceptance, hacc, hclear⟩ := hn.items item hi ha
      refine ⟨acceptance, hacc, fun found hf he => ?_⟩
      rw [hrunRows, List.mem_append, List.mem_singleton] at hf
      rcases hf with hf | rfl
      · exact absurd (he.trans (hn.parents item hi)) (hfresh found hf)
      · exact hclear
  · intro found hf ha
    rw [hrunRows, List.mem_append, List.mem_singleton] at hf
    rcases hf with hf | rfl
    · exact h.runs found hf ha
    · exact hn.run ha
  · intro item hi oldId hc
    rw [hrows, List.mem_append] at hi
    obtain ⟨hs, old, ho, hid, holdStatus, hacc, hkey, hsup⟩ : item.status = .accepted ∧
        ∃ old ∈ ledger.items.rows, old.id = oldId ∧ old.status = .accepted ∧
          old.acceptance = item.acceptance ∧ old.carryKey = item.carryKey ∧
          ∀ run ∈ ledger.runs.rows, run.id = old.reconciliationId → run.superseded = true := by
      rcases hi with hi | hi
      · exact h.carried item hi oldId hc
      · exact hn.carried item hi oldId hc
    refine ⟨hs, old, by rw [hrows]; exact List.mem_append_left _ ho, hid, holdStatus, hacc, hkey, ?_⟩
    intro found hf he
    rw [hrunRows, List.mem_append, List.mem_singleton] at hf
    rcases hf with hf | rfl
    · exact hsup found hf he
    · exact absurd he (hold old ho)
  · intro item hi other ho oldId hc hc'
    rw [hrows, List.mem_append] at hi ho
    rcases hi with hi | hi
    · rcases ho with ho | ho
      · exact h.once item hi other ho oldId hc hc'
      · exact absurd hc (hn.fresh other ho oldId hc' item hi)
    · rcases ho with ho | ho
      · exact absurd hc' (hn.fresh item hi oldId hc other ho)
      · by_contra hne
        exact hn.once.forall hi ho hne oldId hc hc'

theorem cleared_current (ledger : Ledger) (provider : String) (periodStart : Date) (actor : String)
    (h : actor ∉ (currentInvoices ledger provider periodStart).map (·.importedBy)) :
    Cleared ledger.invoices ((currentInvoices ledger provider periodStart).map (·.id)).mergeSort actor := by
  intro invoice hi hid he
  obtain ⟨found, hf, hsame⟩ := List.mem_map.mp (List.mem_mergeSort.mp hid)
  have hfound : found ∈ ledger.invoices.rows := List.mem_of_mem_filter hf
  rw [Table.eq_of_key ledger.invoices found invoice hfound hi hsame] at hf
  exact h (List.mem_map.mpr ⟨invoice, hf, he⟩)

theorem latestAcceptance_mem (acceptances : List Acceptance) (h : acceptances ≠ []) :
    ∃ acceptance ∈ acceptances, latestAcceptance acceptances = some acceptance := by
  have hfold : ∀ (rest : List Acceptance) (best : Acceptance),
      rest.foldl (fun best next => if next.stamp > best.stamp then next else best) best ∈ best :: rest := by
    intro rest
    induction rest with
    | nil => exact fun best => List.mem_singleton_self best
    | cons next rest ih =>
        intro best
        rw [List.foldl_cons]
        have hnext := ih (if next.stamp > best.stamp then next else best)
        rcases List.mem_cons.mp hnext with he | hr
        · rw [he]
          split <;> simp
        · exact List.mem_cons_of_mem _ (List.mem_cons_of_mem _ hr)
  cases acceptances with
  | nil => exact absurd rfl h
  | cons first rest => exact ⟨_, hfold rest first, rfl⟩

-- What an item of a run takes over: an accepted item of an open run of the month.
structure TakesOver (ledger : Ledger) (provider : String) (periodStart : Date) (refused : List String)
    (item : Item) (old : StoredItem) : Prop where
  stored : old ∈ ledger.items.rows
  parent : ∃ last ∈ openRuns ledger provider periodStart, last.id = old.reconciliationId
  accepted : old.status = .accepted
  actor : ∃ acceptance, old.acceptance = some acceptance ∧ acceptance.actor ∉ refused
  key : old.carryKey = item.carryKey

theorem carriedItems_takesOver (ledger : Ledger) (provider : String) (periodStart : Date)
    (inputs : MonthInputs) (current : List Invoice) (items : List Item) (entry : Item × Option StoredItem)
    (he : entry ∈ carriedItems ledger provider periodStart inputs current items) :
    entry.1 ∈ items ∧ ∀ old, entry.2 = some old →
      TakesOver ledger provider periodStart (current.map (·.importedBy)) entry.1 old := by
  obtain ⟨hmem, htake⟩ := carryOver_mem items _ entry he
  refine ⟨hmem, fun old ho => ?_⟩
  have hoffer := htake old ho
  obtain ⟨hkeys, hsources⟩ := offers_acceptedBefore
    (previousItems ledger provider periodStart inputs.isoformat) (current.map (·.importedBy))
  obtain ⟨hprevious, haccepted, hactor⟩ := hsources _ hoffer
  unfold previousItems at hprevious
  split at hprevious
  · cases hprevious
  · rename_i last rest hopen
    have hfiltered := List.mem_mergeSort.mp hprevious
    have hparent := (List.mem_filter.mp hfiltered).2
    simp only [decide_eq_true_eq] at hparent
    exact {
      stored := List.mem_of_mem_filter hfiltered
      parent := ⟨last, by rw [hopen]; exact List.mem_cons_self, hparent.symm⟩
      accepted := haccepted
      actor := hactor
      key := (hkeys _ hoffer).symm }

theorem mem_openRuns (ledger : Ledger) (provider : String) (periodStart : Date) (run : Reconciliation)
    (hr : run ∈ openRuns ledger provider periodStart) : run ∈ ledger.runs.rows ∧ run.superseded = false := by
  have hfiltered := List.mem_mergeSort.mp hr
  have htest := (List.mem_filter.mp hfiltered).2
  simp only [Bool.and_eq_true, Bool.not_eq_true'] at htest
  exact ⟨List.mem_of_mem_filter hfiltered, htest.2⟩

-- An accepted row of a run is one that takes over; the comparison itself accepts nothing.
theorem itemRow_accepted (items : List Item) (hitems : ∀ item ∈ items, item.status ≠ .accepted)
    (runId id : String) (entry : Item × Option StoredItem) (hm : entry.1 ∈ items)
    (h : (itemRow runId id entry).status = .accepted) : ∃ old, entry.2 = some old := by
  cases ho : entry.2 with
  | some old => exact ⟨old, rfl⟩
  | none =>
      refine absurd ?_ (hitems entry.1 hm)
      simpa [itemRow, ho] using h

theorem newRun_items (ledger : Ledger) (provider : String) (periodStart : Date) (inputs : MonthInputs)
    (items : List Item) (hitems : ∀ item ∈ items, item.status ≠ .accepted) (runId : String)
    (itemId : Nat → String) (row : StoredItem)
    (hr : row ∈ itemRows runId itemId 0 (carriedItems ledger provider periodStart inputs
      (currentInvoices ledger provider periodStart) items)) (ha : row.status = .accepted) :
    ∃ acceptance, row.acceptance = some acceptance ∧
      Cleared ledger.invoices ((currentInvoices ledger provider periodStart).map (·.id)).mergeSort
        acceptance.actor := by
  obtain ⟨entry, he, id, rfl⟩ := mem_itemRows runId itemId 0 _ row hr
  obtain ⟨hm, htake⟩ := carriedItems_takesOver ledger provider periodStart inputs _ items entry he
  obtain ⟨old, ho⟩ := itemRow_accepted items hitems runId id entry hm ha
  obtain ⟨acceptance, hacc, hactor⟩ := (htake old ho).actor
  refine ⟨acceptance, ?_, cleared_current ledger provider periodStart acceptance.actor hactor⟩
  simp [itemRow, ho, hacc]

theorem newRun_carried (ledger : Ledger) (provider : String) (periodStart : Date) (inputs : MonthInputs)
    (current : List Invoice) (items : List Item) (runId : String) (itemId : Nat → String) (row : StoredItem)
    (hr : row ∈ itemRows runId itemId 0 (carriedItems ledger provider periodStart inputs current items))
    (oldId : String) (hc : row.carriedFrom = some oldId) :
    row.status = .accepted ∧ ∃ old ∈ ledger.items.rows, old.id = oldId ∧ old.status = .accepted ∧
      old.acceptance = row.acceptance ∧ old.carryKey = row.carryKey ∧
      ∃ last ∈ openRuns ledger provider periodStart, last.id = old.reconciliationId := by
  obtain ⟨entry, he, id, rfl⟩ := mem_itemRows runId itemId 0 _ row hr
  obtain ⟨_, htake⟩ := carriedItems_takesOver ledger provider periodStart inputs _ items entry he
  obtain ⟨old, ho, hid⟩ := Option.map_eq_some_iff.mp hc
  have hold := htake old ho
  refine ⟨?_, old, hold.stored, hid, hold.accepted, ?_, hold.key, hold.parent⟩
  · simp [itemRow, ho]
  · simp [itemRow, ho]

theorem newRun_once (ledger : Ledger) (provider : String) (periodStart : Date) (inputs : MonthInputs)
    (current : List Invoice) (items : List Item) (runId : String) (itemId : Nat → String) :
    (itemRows runId itemId 0 (carriedItems ledger provider periodStart inputs current items)).Pairwise
      CarryApart := by
  refine itemRows_pairwise runId itemId 0 _ CarryApart ?_
  refine (carryOver_pairwise items _).imp_of_mem ?_
  intro a b ha hb hkeys i j oldId hca hcb
  obtain ⟨old, ho, hid⟩ := Option.map_eq_some_iff.mp hca
  obtain ⟨old', ho', hid'⟩ := Option.map_eq_some_iff.mp hcb
  have htake := (carriedItems_takesOver ledger provider periodStart inputs current items a ha).2 old ho
  have htake' := (carriedItems_takesOver ledger provider periodStart inputs current items b hb).2 old' ho'
  have hsame := Table.eq_of_key ledger.items old old' htake.stored htake'.stored (hid.trans hid'.symm)
  refine hkeys (by rw [ho]; rfl) (by rw [ho']; rfl) ?_
  rw [← htake.key, ← htake'.key, hsame]

theorem runAcceptance_mem (providerStatus : ItemStatus) (needsReview : Nat) (rows : List StoredItem)
    (hrows : ∀ row ∈ rows, row.status = .accepted → ∃ acceptance, row.acceptance = some acceptance)
    (h : runStatus providerStatus needsReview (rows.countP (·.status = .accepted)) = .accepted) :
    ∃ row ∈ rows, row.status = .accepted ∧
      runAcceptance (runStatus providerStatus needsReview (rows.countP (·.status = .accepted))) rows =
        row.acceptance := by
  have hcount : rows.countP (·.status = .accepted) ≠ 0 := by
    intro hzero
    rw [hzero] at h
    unfold runStatus at h
    split at h
    · cases h
    · split at h
      · exact absurd rfl (by assumption)
      · split at h <;> cases h
  obtain ⟨row, hr, ha⟩ := List.countP_pos_iff.mp (Nat.pos_of_ne_zero hcount)
  have hstatus := of_decide_eq_true ha
  obtain ⟨acceptance, hacc⟩ := hrows row hr hstatus
  have hmem : acceptance ∈ (rows.filter (·.status = .accepted)).filterMap (·.acceptance) :=
    List.mem_filterMap.mpr ⟨row, List.mem_filter.mpr ⟨hr, ha⟩, hacc⟩
  obtain ⟨latest, hl, he⟩ := latestAcceptance_mem _ (List.ne_nil_of_mem hmem)
  obtain ⟨found, hf, hlatest⟩ := List.mem_filterMap.mp hl
  obtain ⟨hfr, hfa⟩ := List.mem_filter.mp hf
  refine ⟨found, hfr, of_decide_eq_true hfa, ?_⟩
  rw [runAcceptance, if_pos h, he, hlatest]

theorem Sound.runMonth (ledger ledger' : Ledger) (h : Sound ledger) (runId : String) (itemId : Nat → String)
    (provider : String) (periodStart : Date) (periodText who : String) (now : Int) (inputs : MonthInputs)
    (hr : runMonth ledger runId itemId provider periodStart periodText who now inputs = .ok ledger') :
    Sound ledger' := by
  unfold Spend.runMonth at hr
  dsimp only at hr
  obtain ⟨currency, _, hr⟩ := (bind_ok _ _ _).mp hr
  obtain ⟨_, _, hr⟩ := (bind_ok _ _ _).mp hr
  obtain ⟨runs, hruns, hr⟩ := (bind_ok _ _ _).mp hr
  obtain ⟨stored, hstored, hr⟩ := (bind_ok _ _ _).mp hr
  rw [pure_ok] at hr
  rw [← hr]
  have haccepts := newRun_items ledger provider periodStart inputs _
    (matchLines_not_accepted inputs.names provider inputs.daysInMonth
      (monthLines (currentInvoices ledger provider periodStart)) inputs.priced) runId itemId
  refine (h.supersedeRuns ledger (openRuns ledger provider periodStart)).newRun _ _ _ ?_ runs hruns stored
    hstored
  constructor
  · intro id hid
    obtain ⟨invoice, hi, rfl⟩ := List.mem_map.mp (List.mem_mergeSort.mp hid)
    exact ⟨invoice, List.mem_of_mem_filter hi, rfl⟩
  · intro row hrow
    obtain ⟨entry, _, id, rfl⟩ := mem_itemRows runId itemId 0 _ row hrow
    rfl
  · exact haccepts
  · intro hs
    obtain ⟨row, hrow, ha, he⟩ := runAcceptance_mem _ _ _
      (fun row hrow ha => (haccepts row hrow ha).imp fun _ hacc => hacc.1) hs
    obtain ⟨acceptance, hacc, hclear⟩ := haccepts row hrow ha
    exact ⟨acceptance, he.trans hacc, hclear⟩
  · intro row hrow oldId hc
    obtain ⟨hs, old, ho, hid, hold, hacc, hkey, last, hlast, hparent⟩ :=
      newRun_carried ledger provider periodStart inputs _ _ runId itemId row hrow oldId hc
    refine ⟨hs, old, ho, hid, hold, hacc, hkey, ?_⟩
    intro run hrun he
    obtain ⟨before, _, hcase⟩ := mem_supersedeRuns _ ledger.runs run hrun
    rcases hcase with rfl | ⟨_, hothers⟩
    · rfl
    · exact absurd (hparent.trans he.symm) (hothers last hlast)
  · exact newRun_once ledger provider periodStart inputs _ _ runId itemId
  · intro row hrow oldId hc item hi hitem
    obtain ⟨_, old, ho, hid, _, _, _, last, hlast, hparent⟩ :=
      newRun_carried ledger provider periodStart inputs _ _ runId itemId row hrow oldId hc
    obtain ⟨_, old', ho', hid', _, _, _, hsup⟩ := h.carried item hi oldId hitem
    obtain ⟨hrun, hopen⟩ := mem_openRuns ledger provider periodStart last hlast
    have hsame := Table.eq_of_key ledger.items old old' ho ho' (hid.trans hid'.symm)
    have htrue := hsup last hrun (hparent.trans (by rw [hsame]))
    rw [hopen] at htrue
    cases htrue

end Running

section Calls

theorem Sound.after (strip : String → String) (actor : String) (now : Int) (ledger ledger' : Ledger)
    (h : Sound ledger) (call : LedgerCall) (hc : call.after strip actor now ledger = .ok ledger') :
    Sound ledger' := by
  cases call with
  | importInvoice newId file replace dryRun =>
      obtain ⟨who, _, hc⟩ := (bind_ok _ _ _).mp hc
      exact h.importInvoice ledger ledger' newId file who now replace dryRun hc
  | run runId itemId provider periodStart periodText inputs =>
      obtain ⟨who, _, hc⟩ := (bind_ok _ _ _).mp hc
      exact h.runMonth ledger ledger' runId itemId provider periodStart periodText who now inputs hc
  | acceptItem runId itemId reason =>
      obtain ⟨who, _, hc⟩ := (bind_ok _ _ _).mp hc
      obtain ⟨why, _, hc⟩ := (bind_ok _ _ _).mp hc
      exact h.acceptItem ledger ledger' runId itemId why who now hc
  | acceptRun runId reason =>
      obtain ⟨who, _, hc⟩ := (bind_ok _ _ _).mp hc
      obtain ⟨why, _, hc⟩ := (bind_ok _ _ _).mp hc
      exact h.acceptRun ledger ledger' runId why who now hc

theorem sound_ledgerStep (strip : String → String) (ledger : Ledger) (h : Sound ledger)
    (request : LedgerRequest) : Sound (ledgerStep strip ledger request) := by
  unfold ledgerStep
  split
  · rename_i ledger' hok
    exact h.after strip request.actor request.now ledger ledger' request.call hok
  · exact h

theorem sound_ledgerAfter (strip : String → String) (requests : List LedgerRequest) :
    Sound (ledgerAfter strip requests) := by
  have hfold : ∀ (requests : List LedgerRequest) (ledger : Ledger), Sound ledger →
      Sound (requests.foldl (ledgerStep strip) ledger) := by
    intro requests
    induction requests with
    | nil => exact fun _ h => h
    | cons request rest ih =>
        intro ledger h
        exact ih _ (sound_ledgerStep strip ledger h request)
  exact hfold requests .empty sound_empty

-- None of the run's invoices was imported by whoever accepted.
def CheckedBy (ledger : Ledger) (run : Reconciliation) (acceptance : Option Acceptance) : Prop :=
  ∃ found, acceptance = some found ∧ ∀ id ∈ run.invoiceIds, ∃ invoice ∈ ledger.invoices.rows,
    invoice.id = id ∧ invoice.importedBy ≠ found.actor

theorem Sound.checkedBy (ledger : Ledger) (h : Sound ledger) (run : Reconciliation)
    (hr : run ∈ ledger.runs.rows) (acceptance : Acceptance)
    (hclear : Cleared ledger.invoices run.invoiceIds acceptance.actor) :
    CheckedBy ledger run (some acceptance) := by
  refine ⟨acceptance, rfl, fun id hid => ?_⟩
  obtain ⟨invoice, hi, rfl⟩ := h.invoiceIds run hr id hid
  exact ⟨invoice, hi, rfl, hclear invoice hi hid⟩

-- Whoever imported an invoice of a run accepted neither the run nor one of its items, and what a
-- superseded run's item was accepted for goes to one unchanged item at most.
theorem acceptances_separate (strip : String → String) (requests : List LedgerRequest) :
    (∀ run ∈ (ledgerAfter strip requests).runs.rows,
      (run.status = .accepted → CheckedBy (ledgerAfter strip requests) run run.acceptance) ∧
      ∀ item ∈ (ledgerAfter strip requests).items.rows, item.reconciliationId = run.id →
        item.status = .accepted → CheckedBy (ledgerAfter strip requests) run item.acceptance) ∧
    (∀ item ∈ (ledgerAfter strip requests).items.rows, ∀ oldId, item.carriedFrom = some oldId →
      item.status = .accepted ∧ ∃ old ∈ (ledgerAfter strip requests).items.rows, old.id = oldId ∧
        old.status = .accepted ∧ old.acceptance = item.acceptance ∧ old.key = item.key ∧
        old.invoiceLineIds.Perm item.invoiceLineIds ∧ old.storedAmount = item.storedAmount ∧
        old.repricedAmount = item.repricedAmount ∧
        ∃ run ∈ (ledgerAfter strip requests).runs.rows, run.id = old.reconciliationId ∧
          run.superseded = true) ∧
    ∀ oldId, ((ledgerAfter strip requests).items.rows.filter (·.carriedFrom = some oldId)).length ≤ 1 := by
  have h := sound_ledgerAfter strip requests
  refine ⟨fun run hr => ⟨?_, ?_⟩, ?_, ?_⟩
  · intro ha
    obtain ⟨acceptance, hacc, hclear⟩ := h.runs run hr ha
    rw [hacc]
    exact h.checkedBy _ run hr acceptance hclear
  · intro item hi he ha
    obtain ⟨acceptance, hacc, hclear⟩ := h.items item hi ha
    rw [hacc]
    exact h.checkedBy _ run hr acceptance (hclear run hr he.symm)
  · intro item hi oldId hc
    obtain ⟨hs, old, ho, hid, hold, hacc, hkey, hsup⟩ := h.carried item hi oldId hc
    obtain ⟨run, hr, hrun⟩ := h.itemRuns old ho
    have hlines : old.invoiceLineIds.mergeSort = item.invoiceLineIds.mergeSort := congrArg CarryKey.lineIds hkey
    refine ⟨hs, old, ho, hid, hold, hacc, congrArg CarryKey.key hkey, ?_, congrArg CarryKey.stored hkey,
      congrArg CarryKey.repriced hkey, run, hr, hrun, hsup run hr hrun⟩
    have hsorted := (List.mergeSort_perm item.invoiceLineIds fun a b => decide (a ≤ b))
    rw [← hlines] at hsorted
    exact (List.mergeSort_perm _ _).symm.trans hsorted
  · intro oldId
    refine Table.length_filter_le_one _ _ ?_
    intro a ha b hb hta htb
    rw [h.once a ha b hb oldId (of_decide_eq_true hta) (of_decide_eq_true htb)]

end Calls

end AgenticOrg.Spend
