import AgenticOrg.Commerce.HostedRefunds
import AgenticOrg.Lib.Lists

namespace AgenticOrg.Commerce.Hosted

open Tables

section Definitions

-- What the tenant's journal keeps: a phase of a call once, and the rest of a refund call after its request.
structure RefundJournal (journal : List HostedRow) : Prop where
  once : (journal.map Keyed.key).Nodup
  requestedFirst : ∀ requested ∈ journal, requested.operation = .refund → requested.phase = .requested →
    ∀ row ∈ journal, row.operation = .refund → row.reference = requested.reference → row.phase ≠ .requested →
      requested.createdAt < row.createdAt

-- What the query may answer without its bound: rows of one time come in any order.
structure Queried (journal : List HostedRow) (now : ℤ) (recent : List HostedRow) : Prop where
  perm : recent.Perm
    (journal.filter fun row => row.operation = .refund ∧ now - RECONCILE_WINDOW ≤ row.createdAt)
  sorted : recent.Pairwise fun a b => a.createdAt ≤ b.createdAt

-- `outstanding_refunds`
def outstandingOf (recent : List HostedRow) (now : ℤ) (limit : ℕ) : List OutstandingRefund :=
  let read := recent.take (limit * 4)
  ((read.map (·.reference)).eraseDups.filterMap (outstandingRefund read now)).take limit

def HostedRow.outstanding (row : HostedRow) : OutstandingRefund where
  reference := row.reference
  decisionId := row.decisionId
  amount := row.amountMinorUnits
  currency := row.currency

def HostedRow.final (row : HostedRow) : Bool := row.phase = .succeeded || row.phase = .failed

def finished (rows : List HostedRow) (reference : Reference) : Bool :=
  rows.any fun row => row.operation = .refund && row.reference = reference && row.final

-- A refund was asked for in the window, and long enough ago.
def due (now : ℤ) (row : HostedRow) : Bool :=
  row.operation = .refund && row.phase = .requested && now - RECONCILE_WINDOW ≤ row.createdAt &&
    row.createdAt ≤ now - RECONCILE_AFTER

def openIn (rows : List HostedRow) (now : ℤ) (row : HostedRow) : Bool := due now row && !finished rows row.reference

def openCalls (journal : List HostedRow) (now : ℤ) : List HostedRow := journal.filter (openIn journal now)

-- The oldest open refunds, the oldest first.
def OldestOpen (journal : List HostedRow) (now : ℤ) (limit : ℕ) (found : List OutstandingRefund) : Prop :=
  ∃ calls : List HostedRow, calls.Perm (openCalls journal now) ∧ calls.Pairwise (fun a b => a.createdAt ≤ b.createdAt) ∧
    found = (calls.take limit).map (·.outstanding)

-- Of the refunds with fewer open ones before them than are asked for, an open one is among the rows that are read,
-- and so is the outcome of a finished one.
def InReach (journal recent : List HostedRow) (now : ℤ) (limit : ℕ) : Prop :=
  ∀ before row after, recent = before ++ row :: after → due now row = true →
    (before.filter (openIn journal now)).length < limit →
      (finished journal row.reference = false → before.length < limit * 4) ∧
        (finished journal row.reference = true → before.length < limit * 4 →
          finished (recent.take (limit * 4)) row.reference = true)

end Definitions

section Reading

theorem outstandingRefunds_eq (rows : List HostedRow) (now : ℤ) : outstandingRefunds rows now =
    outstandingOf ((rows.filter fun row => now - RECONCILE_WINDOW ≤ row.createdAt).insertionSort
      fun a b => a.createdAt ≤ b.createdAt) now RECONCILE_BATCH := rfl

-- The read of a pass over one order is one that the query may give.
theorem queried_insertionSort (rows : List HostedRow) (now : ℤ) (h : ∀ row ∈ rows, row.operation = .refund) :
    Queried rows now ((rows.filter fun row => now - RECONCILE_WINDOW ≤ row.createdAt).insertionSort
      fun a b => a.createdAt ≤ b.createdAt) where
  perm := by
    refine (List.perm_insertionSort _ _).trans (List.Perm.of_eq (List.filter_congr fun row hrow => ?_))
    exact decide_eq_decide.mpr (and_iff_right (h row hrow)).symm
  sorted := by
    have htotal : Std.Total fun a b : HostedRow => a.createdAt ≤ b.createdAt :=
      ⟨fun a b => le_total a.createdAt b.createdAt⟩
    have htrans : IsTrans HostedRow fun a b => a.createdAt ≤ b.createdAt := ⟨fun _ _ _ => le_trans⟩
    exact List.pairwise_insertionSort _ _

variable (journal recent : List HostedRow) (now : ℤ)
variable (hjournal : RefundJournal journal) (hrecent : Queried journal now recent)

include hrecent in
theorem Queried.mem_iff (row : HostedRow) : row ∈ recent ↔
    row ∈ journal ∧ row.operation = .refund ∧ now - RECONCILE_WINDOW ≤ row.createdAt := by
  rw [hrecent.perm.mem_iff, List.mem_filter, decide_eq_true_eq]

include hjournal in
theorem RefundJournal.requested_unique (a b : HostedRow) (ha : a ∈ journal) (hb : b ∈ journal)
    (hsame : a.reference = b.reference) (hoa : a.operation = .refund) (hob : b.operation = .refund)
    (hpa : a.phase = .requested) (hpb : b.phase = .requested) : a = b := by
  refine List.inj_on_of_nodup_map hjournal.once ha hb ?_
  show (a.reference, a.operation, a.phase) = (b.reference, b.operation, b.phase)
  rw [hsame, hoa, hob, hpa, hpb]

include hjournal hrecent

theorem Queried.nodup : recent.Nodup :=
  hrecent.perm.nodup_iff.mpr (hjournal.once.of_map _ |>.filter _)

-- What is found for the reference of a row: the refund, if the row is its request and it looks open.
theorem outstandingRefund_requested_eq (read : List HostedRow) (hread : ∀ row ∈ read, row ∈ recent) (row : HostedRow)
    (hrow : row ∈ read) (hphase : row.phase = .requested) : outstandingRefund read now row.reference =
      if openIn read now row then some row.outstanding else none := by
  have hmem := fun row hrow => (hrecent.mem_iff journal recent now row).mp (hread row hrow)
  obtain ⟨hin, hoperation, hwindow⟩ := hmem row hrow
  have hfind : (read.filter (·.reference = row.reference)).find? (·.phase = .requested) = some row := by
    have hsome : ((read.filter (·.reference = row.reference)).find? (·.phase = .requested)).isSome = true :=
      List.find?_isSome.mpr ⟨row, List.mem_filter.mpr ⟨hrow, decide_eq_true rfl⟩, decide_eq_true hphase⟩
    obtain ⟨found, hfound⟩ := Option.isSome_iff_exists.mp hsome
    have hmemFound := List.mem_filter.mp (List.mem_of_find?_eq_some hfound)
    obtain ⟨hinFound, hoperationFound, _⟩ := hmem found hmemFound.1
    have htest := List.find?_some hfound
    have hphaseFound : found.phase = .requested := of_decide_eq_true htest
    rw [hfound, hjournal.requested_unique journal found row hinFound hin (of_decide_eq_true hmemFound.2)
      hoperationFound hoperation hphaseFound hphase]
  have hany : ((read.filter (·.reference = row.reference)).any fun other =>
      other.phase = .succeeded || other.phase = .failed) = finished read row.reference := by
    rw [finished, List.any_filter, Bool.eq_iff_iff, List.any_eq_true, List.any_eq_true]
    refine exists_congr fun other => and_congr_right fun hother => ?_
    rw [(hmem other hother).2.1]
    simp [HostedRow.final]
  have hdue : due now row = decide (row.createdAt ≤ now - RECONCILE_AFTER) := by
    unfold due
    rw [hoperation, hphase, decide_eq_true hwindow]
    rfl
  unfold outstandingRefund openIn
  dsimp only
  rw [hfind, hdue]
  dsimp only
  rw [hany]
  by_cases hfinished : finished read row.reference = true
  · rw [hfinished]
    simp
  · rw [Bool.not_eq_true] at hfinished
    rw [hfinished]
    by_cases hage : row.createdAt ≤ now - RECONCILE_AFTER
    · rw [if_neg (by simpa using hage), if_pos (by simpa using hage)]
      rfl
    · rw [if_pos (by simpa using hage), if_neg (by simpa using hage)]

-- The refunds found are the calls that look open in the rows that are read.
theorem outstandingOf_eq (limit : ℕ) : outstandingOf recent now limit =
    (((recent.take (limit * 4)).filter (openIn (recent.take (limit * 4)) now)).take limit).map (·.outstanding) := by
  unfold outstandingOf
  dsimp only
  rw [List.map_take (l := List.filter _ _)]
  refine congrArg (List.take limit) (Lists.filterMap_eraseDups (fun row : HostedRow => row.reference) _ _ _ _ ?_)
  intro before row after hsplit
  have hread : ∀ row ∈ recent.take (limit * 4), row ∈ recent := fun row hrow => List.mem_of_mem_take hrow
  have hmem : ∀ row ∈ recent.take (limit * 4), row ∈ journal ∧ row.operation = .refund := fun row hrow =>
    have h := (hrecent.mem_iff journal recent now row).mp (hread row hrow)
    ⟨h.1, h.2.1⟩
  have hrow : row ∈ recent.take (limit * 4) := by rw [hsplit]; simp
  have hsorted := List.Pairwise.sublist (List.take_sublist (limit * 4) recent) hrecent.sorted
  have hnodup := (hrecent.nodup journal recent now hjournal).sublist (List.take_sublist (limit * 4) recent)
  rw [hsplit, List.pairwise_append] at hsorted
  rw [hsplit, List.nodup_append] at hnodup
  constructor
  · intro hlater
    obtain ⟨earlier, hearlier, hsame⟩ := List.mem_map.mp hlater
    have hinEarlier : earlier ∈ recent.take (limit * 4) := by rw [hsplit]; simp [hearlier]
    have hdue : due now row = false := by
      by_contra hdue
      rw [Bool.not_eq_false] at hdue
      have hphase : row.phase = .requested := by
        simp only [due, Bool.and_eq_true, decide_eq_true_eq] at hdue
        exact hdue.1.1.2
      by_cases hother : earlier.phase = .requested
      · have heq := hjournal.requested_unique journal earlier row (hmem _ hinEarlier).1 (hmem _ hrow).1 hsame
          (hmem _ hinEarlier).2 (hmem _ hrow).2 hother hphase
        exact hnodup.2.2 earlier hearlier row List.mem_cons_self heq
      · have hbefore := hsorted.2.2 earlier hearlier row List.mem_cons_self
        have hafter := hjournal.requestedFirst row (hmem _ hrow).1 (hmem _ hrow).2 hphase earlier
          (hmem _ hinEarlier).1 (hmem _ hinEarlier).2 hsame hother
        omega
    rw [openIn, hdue, Bool.false_and]
  · intro hfirst
    by_cases hphase : row.phase = .requested
    · exact outstandingRefund_requested_eq journal recent now hjournal hrecent _ hread row hrow hphase
    · have hnone : ((recent.take (limit * 4)).filter (·.reference = row.reference)).find? (·.phase = .requested) =
          none := by
        rw [List.find?_eq_none]
        intro requested hrequested hphaseRequested
        rw [decide_eq_true_eq] at hphaseRequested
        rw [List.mem_filter, decide_eq_true_eq] at hrequested
        have hbefore := hjournal.requestedFirst requested (hmem _ hrequested.1).1 (hmem _ hrequested.1).2
          hphaseRequested row (hmem _ hrow).1 (hmem _ hrow).2 hrequested.2.symm hphase
        have hplace := hrequested.1
        rw [hsplit, List.mem_append, List.mem_cons] at hplace
        rcases hplace with hplace | rfl | hplace
        · exact hfirst (List.mem_map.mpr ⟨requested, hplace, hrequested.2⟩)
        · exact hphase hphaseRequested
        · have hafter := (List.pairwise_cons.mp hsorted.2.1).1 requested hplace
          omega
      have hclosed : openIn (recent.take (limit * 4)) now row = false := by
        unfold openIn due
        rw [decide_eq_false hphase, Bool.and_false, Bool.false_and, Bool.false_and, Bool.false_and]
      rw [hclosed, outstandingRefund, hnone]
      rfl

end Reading

section Limits

variable (journal recent : List HostedRow) (now : ℤ) (limit : ℕ)
variable (hjournal : RefundJournal journal) (hrecent : Queried journal now recent)

include hrecent in
theorem Queried.openCalls_perm : (recent.filter (openIn journal now)).Perm (openCalls journal now) := by
  refine (hrecent.perm.filter _).trans (List.Perm.of_eq ?_)
  rw [List.filter_filter, openCalls]
  refine List.filter_congr fun row _ => ?_
  by_cases hdue : due now row = true
  · have hrow := hdue
    simp only [due, Bool.and_eq_true, decide_eq_true_eq] at hrow
    rw [decide_eq_true (⟨hrow.1.1.1, hrow.1.2⟩ : row.operation = .refund ∧ now - RECONCILE_WINDOW ≤ row.createdAt),
      Bool.and_true]
  · rw [Bool.not_eq_true] at hdue
    rw [openIn, hdue, Bool.false_and, Bool.false_and]

-- The rows that are read show every call they hold as the journal does, where they reach far enough.
theorem openIn_read (read : List HostedRow) (hread : ∀ row ∈ read, row ∈ journal) (row : HostedRow)
    (hfinal : finished journal row.reference = true → finished read row.reference = true) :
    openIn read now row = openIn journal now row := by
  have hsame : finished read row.reference = finished journal row.reference := by
    rw [Bool.eq_iff_iff]
    refine ⟨fun h => ?_, hfinal⟩
    obtain ⟨other, hother, htest⟩ := List.any_eq_true.mp h
    exact List.any_eq_true.mpr ⟨other, hread other hother, htest⟩
  rw [openIn, openIn, hsame]

include hjournal hrecent

-- The poll gives the oldest open refunds exactly where its rows reach that far.
theorem outstanding_oldest_iff :
    OldestOpen journal now limit (outstandingOf recent now limit) ↔ InReach journal recent now limit := by
  have hread : ∀ row ∈ recent.take (limit * 4), row ∈ journal := fun row hrow =>
    ((hrecent.mem_iff journal recent now row).mp (List.mem_of_mem_take hrow)).1
  have hcount := (hrecent.openCalls_perm journal recent now).length_eq
  have hdue : ∀ rows row, openIn rows now row = true → due now row = true := fun rows row h =>
    (Bool.and_eq_true _ _ ▸ h).1
  rw [outstandingOf_eq journal recent now hjournal hrecent]
  constructor
  · rintro ⟨calls, hperm, _, hfound⟩ before row after hsplit hrow hfew
    -- what was found is open, and as much as there is to find
    have hlength := congrArg List.length hfound
    rw [List.length_map, List.length_map, List.length_take (l := calls), hperm.length_eq, ← hcount] at hlength
    have hopen : ∀ call ∈ ((recent.take (limit * 4)).filter (openIn (recent.take (limit * 4)) now)).take limit,
        openIn journal now call = true := by
      intro call hcall
      have hfoundCall := List.mem_map_of_mem (f := HostedRow.outstanding) hcall
      rw [hfound] at hfoundCall
      obtain ⟨other, hother, hsame⟩ := List.mem_map.mp hfoundCall
      obtain ⟨hotherIn, hotherOpen⟩ := List.mem_filter.mp (hperm.mem_iff.mp (List.mem_of_mem_take hother))
      obtain ⟨hcallIn, hcallOpen⟩ := List.mem_filter.mp (List.mem_of_mem_take hcall)
      have hotherDue := hdue _ _ hotherOpen
      have hcallDue := hdue _ _ hcallOpen
      simp only [due, Bool.and_eq_true, decide_eq_true_eq] at hotherDue hcallDue
      rw [hjournal.requested_unique journal call other (hread call hcallIn) hotherIn
        (congrArg OutstandingRefund.reference hsame).symm hcallDue.1.1.1 hotherDue.1.1.1 hcallDue.1.1.2
        hotherDue.1.1.2]
      exact hotherOpen
    have hfilter := List.filter_eq_self.mpr hopen
    constructor
    · intro hfinished
      by_contra hle
      rw [Nat.not_lt] at hle
      have hrowOpen : openIn journal now row = true := by rw [openIn, hrow, hfinished]; rfl
      have htotal : (before.filter (openIn journal now)).length < (recent.filter (openIn journal now)).length := by
        rw [hsplit, List.filter_append, List.filter_cons_of_pos hrowOpen, List.length_append, List.length_cons]
        omega
      have hleading : recent.take (limit * 4) = before.take (limit * 4) := by
        rw [hsplit, List.take_append_of_le_length hle]
      have hsublist := ((List.take_sublist limit _).trans (List.filter_sublist
        (p := openIn (recent.take (limit * 4)) now) (l := recent.take (limit * 4)))).filter (openIn journal now)
      rw [hfilter] at hsublist
      have hbound := hsublist.length_le
      have hshort : ((recent.take (limit * 4)).filter (openIn journal now)).length ≤
          (before.filter (openIn journal now)).length := by
        rw [hleading]
        exact ((List.take_sublist (limit * 4) before).filter _).length_le
      omega
    · intro hfinished hlt
      by_contra hunseen
      rw [Bool.not_eq_true] at hunseen
      have hrowOpen : openIn (recent.take (limit * 4)) now row = true := by rw [openIn, hrow, hunseen]; rfl
      have hclosed : ¬openIn journal now row = true := by
        rw [openIn, hfinished, Bool.not_true, Bool.and_false]
        exact Bool.false_ne_true
      have hleading : recent.take (limit * 4) = before ++ row :: after.take (limit * 4 - before.length - 1) := by
        rw [hsplit, List.take_append, List.take_of_length_le hlt.le, List.take_cons (by omega)]
      have hlist : ∀ test : HostedRow → Bool, test row = true → (recent.take (limit * 4)).filter test =
          before.filter test ++ row :: (after.take (limit * 4 - before.length - 1)).filter test := by
        intro test htest
        rw [hleading, List.filter_append, List.filter_cons_of_pos htest]
      rw [hlist _ hrowOpen] at hopen hfilter
      by_cases hroom : (before.filter (openIn (recent.take (limit * 4)) now)).length < limit
      · refine hclosed (hopen row ?_)
        rw [List.take_append, List.take_of_length_le hroom.le, List.take_cons (by omega)]
        simp
      · rw [Nat.not_lt] at hroom
        rw [List.take_append_of_le_length hroom] at hfilter
        have hsublist := ((List.take_sublist limit _).trans (List.filter_sublist
          (p := openIn (recent.take (limit * 4)) now) (l := before))).filter (openIn journal now)
        rw [hfilter] at hsublist
        have hbound := hsublist.length_le
        rw [List.length_take, Nat.min_eq_left hroom] at hbound
        omega
  · intro hreach
    refine ⟨recent.filter (openIn journal now), hrecent.openCalls_perm journal recent now,
      hrecent.sorted.filter _, congrArg (List.map _) ?_⟩
    refine Lists.take_filter_take _ _ recent (limit * 4) limit fun before row after hsplit hfew => ?_
    by_cases hrow : due now row = true
    · obtain ⟨hopen, hfinal⟩ := hreach before row after hsplit hrow hfew
      refine ⟨fun hlt => openIn_read journal now _ hread row fun h => hfinal h hlt,
        fun hle => ?_⟩
      by_cases hfinished : finished journal row.reference = true
      · rw [openIn, hfinished, Bool.not_true, Bool.and_false]
      · have hlt := hopen (Bool.not_eq_true _ ▸ hfinished)
        omega
    · rw [Bool.not_eq_true] at hrow
      unfold openIn
      rw [hrow]
      exact ⟨fun _ => rfl, fun _ => rfl⟩

-- A window with no more rows than are read is in reach.
theorem inReach_of_few (hfew : recent.length ≤ limit * 4) : InReach journal recent now limit := by
  intro before row after hsplit hdue _
  have hlength := congrArg List.length hsplit
  rw [List.length_append, List.length_cons] at hlength
  refine ⟨fun _ => by omega, fun hfinished _ => ?_⟩
  rw [List.take_of_length_le hfew]
  obtain ⟨final, hfinal, htest⟩ := List.any_eq_true.mp hfinished
  have hrow : row ∈ recent := by rw [hsplit]; simp
  obtain ⟨hin, hoperation, hwindow⟩ := (hrecent.mem_iff journal recent now row).mp hrow
  have hlater := htest
  simp only [due, HostedRow.final, Bool.and_eq_true, Bool.or_eq_true, decide_eq_true_eq] at hdue hlater
  have hphase : final.phase ≠ .requested := by
    intro h
    rw [h] at hlater
    exact hlater.2.elim nofun nofun
  have hafter := hjournal.requestedFirst row hin hoperation hdue.1.1.2 final hfinal hlater.1.1 hlater.1.2 hphase
  refine List.any_eq_true.mpr ⟨final, ?_, htest⟩
  exact (hrecent.mem_iff journal recent now final).mpr ⟨hfinal, hlater.1.1, by omega⟩

omit hjournal hrecent in
-- Where the poll gives the oldest open refunds, and there are no more of them than it asks for, it gives them all.
theorem OldestOpen.polled (found : List OutstandingRefund) (h : OldestOpen journal now limit found)
    (hfew : (openCalls journal now).length ≤ limit) : ∀ call ∈ openCalls journal now, call.outstanding ∈ found := by
  obtain ⟨calls, hperm, _, rfl⟩ := h
  intro call hcall
  rw [List.take_of_length_le (hperm.length_eq ▸ hfew)]
  exact List.mem_map_of_mem (hperm.mem_iff.mpr hcall)

end Limits

section Samples

def sampleRefund (number : ℕ) : OperationRecord where
  operation := .refund
  reference := .refund (String.ofList (List.replicate number 'r'))
  decisionId := number
  amountMinorUnits := 100
  currency := "INR"

-- Calls that are asked for and succeed one after the other.
def sampleRow (place : ℕ) : HostedRow :=
  hostedRow (sampleRefund (place / 2)) (if place % 2 = 0 then .requested else .succeeded) none place

def sampleRows (count : ℕ) : List HostedRow := (List.range count).map sampleRow

theorem sampleRefund_injective (a b : ℕ) (h : (sampleRefund a).reference = (sampleRefund b).reference) : a = b :=
  List.replicate_left_injective 'r' (String.ofList_injective (Reference.refund.inj h))

theorem sampleRow_requested_iff (place : ℕ) : (sampleRow place).phase = .requested ↔ place % 2 = 0 := by
  show (if place % 2 = 0 then Phase.requested else Phase.succeeded) = .requested ↔ place % 2 = 0
  split_ifs with h
  · exact iff_of_true rfl h
  · exact iff_of_false nofun h

theorem sampleRows_journal (count : ℕ) : RefundJournal (sampleRows count) where
  once := by
    unfold sampleRows
    rw [List.map_map]
    refine List.nodup_range.map fun a b h => ?_
    have hreference := sampleRefund_injective _ _ (congrArg (·.1) h)
    have hphase : (sampleRow a).phase = (sampleRow b).phase := congrArg (·.2.2) h
    have hparity : a % 2 = 0 ↔ b % 2 = 0 := by
      rw [← sampleRow_requested_iff, ← sampleRow_requested_iff, hphase]
    omega
  requestedFirst := by
    intro requested hrequested _ hphase row hrow _ hsame hlater
    obtain ⟨a, _, rfl⟩ := List.mem_map.mp hrequested
    obtain ⟨b, _, rfl⟩ := List.mem_map.mp hrow
    rw [sampleRow_requested_iff] at hphase
    rw [Ne, sampleRow_requested_iff] at hlater
    have hreference := sampleRefund_injective _ _ hsame
    show (a : ℤ) < (b : ℤ)
    omega

theorem sampleRows_queried (count : ℕ) : Queried (sampleRows count) 1000 (sampleRows count) where
  perm := by
    refine List.Perm.of_eq (List.filter_eq_self.mpr ?_).symm
    intro row hrow
    obtain ⟨a, _, rfl⟩ := List.mem_map.mp hrow
    have hwindow : (1000 : ℤ) - RECONCILE_WINDOW ≤ (a : ℤ) := by unfold RECONCILE_WINDOW; omega
    exact decide_eq_true ⟨rfl, hwindow⟩
  sorted := by
    unfold sampleRows
    rw [List.pairwise_map]
    exact List.pairwise_lt_range.imp fun hlt => Int.ofNat_le.mpr hlt.le

theorem outstanding_oldest_sample : OldestOpen (sampleRows 3) 1000 RECONCILE_BATCH
      (outstandingOf (sampleRows 3) 1000 RECONCILE_BATCH) ↔
    InReach (sampleRows 3) (sampleRows 3) 1000 RECONCILE_BATCH :=
  outstanding_oldest_iff _ _ _ _ (sampleRows_journal 3) (sampleRows_queried 3)

-- A hundred finished refunds keep the poll from an open one.
theorem outstanding_crowded_out : outstandingOf (sampleRows 201) 1000 RECONCILE_BATCH = [] ∧
    ¬∀ (journal recent : List HostedRow) (now : ℤ) (limit : ℕ), RefundJournal journal → Queried journal now recent →
      OldestOpen journal now limit (outstandingOf recent now limit) := by
  have hnone : outstandingOf (sampleRows 201) 1000 RECONCILE_BATCH = [] := by
    have htake : (sampleRows 201).take (RECONCILE_BATCH * 4) = sampleRows 200 := by
      unfold sampleRows
      rw [← List.map_take, List.take_range]
      rfl
    rw [outstandingOf_eq _ _ _ (sampleRows_journal 201) (sampleRows_queried 201), htake]
    have hclosed : (sampleRows 200).filter (openIn (sampleRows 200) 1000) = [] := by
      rw [List.filter_eq_nil_iff]
      intro row hrow
      obtain ⟨a, ha, rfl⟩ := List.mem_map.mp hrow
      rw [List.mem_range] at ha
      have hfinished : finished (sampleRows 200) (sampleRow a).reference = true := by
        refine List.any_eq_true.mpr ⟨sampleRow (2 * (a / 2) + 1), ?_, ?_⟩
        · exact List.mem_map_of_mem (List.mem_range.mpr (by omega))
        · have hsame : (2 * (a / 2) + 1) / 2 = a / 2 := by omega
          have hodd : (2 * (a / 2) + 1) % 2 = 1 := by omega
          simp [sampleRow, hostedRow, journalEntry, sampleRefund, HostedRow.final, hsame, hodd]
      rw [openIn, hfinished, Bool.not_true, Bool.and_false]
      exact Bool.false_ne_true
    rw [hclosed]
    rfl
  refine ⟨hnone, fun h => ?_⟩
  obtain ⟨calls, hperm, _, hfound⟩ := h _ _ 1000 RECONCILE_BATCH (sampleRows_journal 201) (sampleRows_queried 201)
  rw [hnone] at hfound
  have hopen : sampleRow 200 ∈ openCalls (sampleRows 201) 1000 := by
    refine List.mem_filter.mpr ⟨List.mem_map_of_mem (List.mem_range.mpr (by omega)), ?_⟩
    have hunfinished : finished (sampleRows 201) (sampleRow 200).reference = false := by
      rw [finished, List.any_eq_false]
      intro row hrow
      obtain ⟨a, ha, rfl⟩ := List.mem_map.mp hrow
      rw [List.mem_range] at ha
      intro htest
      simp only [Bool.and_eq_true, decide_eq_true_eq] at htest
      have hreference := sampleRefund_injective _ _ htest.1.2
      have hplace : a = 200 := by omega
      subst hplace
      exact absurd htest.2 (by decide)
    rw [openIn, hunfinished]
    decide
  rw [← hperm.mem_iff] at hopen
  cases calls with
  | nil => cases hopen
  | cons call rest => exact absurd hfound.symm (by simp [RECONCILE_BATCH])

end Samples

end AgenticOrg.Commerce.Hosted
