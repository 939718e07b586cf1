import AgenticOrg.Commerce.Payments
import AgenticOrg.Lib.Lists

namespace AgenticOrg.Commerce

open Tables

section Journals

theorem Journal.has_iff (journal : Journal) (reference : Reference) (operation : Operation) (phase : Phase) :
    journal.has reference operation phase = true ↔
      ∃ row ∈ journal.rows, row.reference = reference ∧ row.operation = operation ∧ row.phase = phase := by
  rw [Journal.has, Option.isSome_iff_exists]
  constructor
  · rintro ⟨row, hr⟩
    obtain ⟨hmem, hkey⟩ := journal.mem_of_find? _ row hr
    exact ⟨row, hmem, congrArg (·.1) hkey, congrArg (·.2.1) hkey, congrArg (·.2.2) hkey⟩
  · rintro ⟨row, hmem, href, hop, hph⟩
    exact ⟨row, (journal.find?_eq_some_iff _ row).mpr ⟨hmem, Prod.ext href (Prod.ext hop hph)⟩⟩

-- A journal that another is the beginning of.
def Journal.Extends (journal later : Journal) : Prop := ∀ row ∈ journal.rows, row ∈ later.rows

theorem Journal.Extends.has (journal later : Journal) (h : journal.Extends later) (reference : Reference)
    (operation : Operation) (phase : Phase) (hh : journal.has reference operation phase = true) :
    later.has reference operation phase = true := by
  rw [Journal.has_iff] at hh ⊢
  obtain ⟨row, hr, hrest⟩ := hh
  exact ⟨row, h row hr, hrest⟩

-- The journal after a write: as it was, or with one row more.
theorem recordOnce_cases (journal : Journal) (record : OperationRecord) (phase : Phase)
    (providerRef : Option String) :
    (journal.recordOnce record phase providerRef = journal ∧
        journal.has record.reference record.operation phase = true) ∨
      (journal.recordOnce record phase providerRef).rows =
        journal.rows ++ [journalEntry record phase providerRef] := by
  unfold Journal.recordOnce
  cases hi : journal.insert? (journalEntry record phase providerRef) with
  | none =>
      refine .inl ⟨rfl, ?_⟩
      rw [Table.insert?] at hi
      split at hi
      · rename_i hm
        obtain ⟨row, hr, he⟩ := List.mem_map.mp hm
        refine (Journal.has_iff _ _ _ _).mpr ⟨row, hr, congrArg (·.1) he, congrArg (·.2.1) he, congrArg (·.2.2) he⟩
      · cases hi
  | some later => exact .inr (Table.rows_insert? journal later _ hi).1

end Journals

section Rows

variable (rows : List JournalEntry) (row : JournalEntry)

theorem mem_references (operation : Operation) (reference : Reference) :
    reference ∈ references operation rows ↔ ∃ row ∈ rows, row.operation = operation ∧ row.reference = reference := by
  rw [references, List.mem_dedup, List.mem_map]
  constructor
  · rintro ⟨row, hr, he⟩
    rw [List.mem_filter, decide_eq_true_eq] at hr
    exact ⟨row, hr.1, hr.2, he⟩
  · rintro ⟨row, hr, ho, he⟩
    exact ⟨row, List.mem_filter.mpr ⟨hr, decide_eq_true ho⟩, he⟩

theorem hasPhase_iff (operation : Operation) (phase : Phase) (reference : Reference) :
    hasPhase rows operation phase reference = true ↔
      ∃ row ∈ rows, row.operation = operation ∧ row.reference = reference ∧ row.phase = phase := by
  simp [hasPhase]

theorem hasPhase_append (operation : Operation) (phase : Phase) (reference : Reference) :
    hasPhase (rows ++ [row]) operation phase reference = true ↔
      hasPhase rows operation phase reference = true ∨
        (row.operation = operation ∧ row.reference = reference ∧ row.phase = phase) := by
  simp [hasPhase]

theorem requestedAmount_append (operation : Operation) (reference : Reference) :
    requestedAmount (rows ++ [row]) operation reference =
      if row.operation = operation ∧ row.reference = reference ∧ row.phase = .requested then row.amountMinorUnits
      else requestedAmount rows operation reference := by
  unfold requestedAmount
  rw [List.reverse_append, List.reverse_singleton, List.singleton_append, List.find?_cons]
  split_ifs with h
  · simp [h]
  · rw [decide_eq_false h]

theorem requestedAmount_cases (operation : Operation) (reference : Reference) :
    requestedAmount rows operation reference = 0 ∨
      ∃ row ∈ rows, row.operation = operation ∧ row.reference = reference ∧ row.phase = .requested ∧
        requestedAmount rows operation reference = row.amountMinorUnits := by
  unfold requestedAmount
  cases hf : rows.reverse.find? fun row =>
      row.operation = operation ∧ row.reference = reference ∧ row.phase = .requested with
  | none => exact .inl rfl
  | some row =>
      have hmem : row ∈ rows := List.mem_reverse.mp (List.mem_of_find?_eq_some hf)
      have htest := List.find?_some hf
      rw [decide_eq_true_eq] at htest
      exact .inr ⟨row, hmem, htest.1, htest.2.1, htest.2.2, rfl⟩

theorem requestedAmount_of_mem (journal : Journal) (hr : row ∈ journal.rows) (hp : row.phase = .requested) :
    requestedAmount journal.rows row.operation row.reference = row.amountMinorUnits := by
  unfold requestedAmount
  cases hf : journal.rows.reverse.find? fun other =>
      other.operation = row.operation ∧ other.reference = row.reference ∧ other.phase = .requested with
  | none =>
      rw [List.find?_eq_none] at hf
      exact absurd (decide_eq_true ⟨rfl, rfl, hp⟩) (hf row (List.mem_reverse.mpr hr))
  | some found =>
      have hmem : found ∈ journal.rows := List.mem_reverse.mp (List.mem_of_find?_eq_some hf)
      have htest := List.find?_some hf
      rw [decide_eq_true_eq] at htest
      have hkey : Keyed.key found = Keyed.key row :=
        Prod.ext htest.2.1 (Prod.ext htest.1 (htest.2.2.trans hp.symm))
      rw [journal.eq_of_key found row hmem hr hkey]
      rfl

end Rows

section Sums

-- Every amount of an operation is at least nothing.
def Nonnegative (operation : Operation) (rows : List JournalEntry) : Prop :=
  ∀ row ∈ rows, row.operation = operation → 0 ≤ row.amountMinorUnits

theorem requestedAmount_nonneg (operation : Operation) (rows : List JournalEntry) (h : Nonnegative operation rows)
    (reference : Reference) : 0 ≤ requestedAmount rows operation reference := by
  rcases requestedAmount_cases rows operation reference with hz | ⟨row, hr, ho, _, _, he⟩
  · rw [hz]
  · rw [he]
    exact h row hr ho

-- What is open for refund: the references that no failure releases.
def openRefunds (rows : List JournalEntry) : List Reference :=
  (references .refund rows).filter fun reference => !hasPhase rows .refund .failed reference

theorem mem_openRefunds (rows : List JournalEntry) (reference : Reference) :
    reference ∈ openRefunds rows ↔
      reference ∈ references .refund rows ∧ hasPhase rows .refund .failed reference = false := by
  rw [openRefunds, List.mem_filter, Bool.not_eq_true']

theorem nodup_openRefunds (rows : List JournalEntry) : (openRefunds rows).Nodup :=
  (List.nodup_dedup _).filter _

-- A row that comes in opens no refund that was requested before.
theorem openRefunds_before (rows : List JournalEntry) (row : JournalEntry) (reference : Reference)
    (h : reference ∈ openRefunds (rows ++ [row])) (hne : requestedAmount rows .refund reference ≠ 0) :
    reference ∈ openRefunds rows := by
  have hopen := (mem_openRefunds (rows ++ [row]) reference).mp h
  refine (mem_openRefunds rows reference).mpr ⟨?_, ?_⟩
  · rcases requestedAmount_cases rows .refund reference with hz | ⟨old, hold, hop, href, _, _⟩
    · exact absurd hz hne
    · exact (mem_references rows .refund reference).mpr ⟨old, hold, hop, href⟩
  · by_contra hfailed
    rw [Bool.not_eq_false] at hfailed
    have hthen := (hasPhase_append rows row .refund .failed reference).mpr (.inl hfailed)
    rw [hopen.2] at hthen
    cases hthen

-- Only a refund journalled anew adds to what is refunded.
theorem refundedOf_append_le (rows : List JournalEntry) (row : JournalEntry) (h : Nonnegative .refund rows)
    (hp : ¬(row.operation = .refund ∧ row.phase = .requested)) :
    refundedOf (rows ++ [row]) ≤ refundedOf rows := by
  have hamount : ∀ reference, requestedAmount (rows ++ [row]) .refund reference =
      requestedAmount rows .refund reference := by
    intro reference
    rw [requestedAmount_append, if_neg]
    exact fun hr => hp ⟨hr.1, hr.2.2⟩
  rw [refundedOf, refundedOf, List.map_congr_left fun reference _ => hamount reference]
  exact Lists.sum_le_of_support _ _ _ (nodup_openRefunds (rows ++ [row]))
    (fun reference hr hne => openRefunds_before rows row reference hr hne)
    fun reference _ => requestedAmount_nonneg .refund rows h reference

-- A refund journalled anew adds at most its amount.
theorem refundedOf_append_requested (rows : List JournalEntry) (row : JournalEntry) (h : Nonnegative .refund rows)
    (ho : row.operation = .refund) (hp : row.phase = .requested) (hn : 0 ≤ row.amountMinorUnits)
    (hfresh : hasPhase rows .refund .requested row.reference = false) :
    refundedOf (rows ++ [row]) ≤ refundedOf rows + row.amountMinorUnits := by
  have hzero : requestedAmount rows .refund row.reference = 0 := by
    rcases requestedAmount_cases rows .refund row.reference with hz | ⟨old, hold, hop, href, hph, _⟩
    · exact hz
    · have hhas := (hasPhase_iff rows .refund .requested row.reference).mpr ⟨old, hold, hop, href, hph⟩
      rw [hfresh] at hhas
      cases hhas
  have hsplit : ∀ reference, requestedAmount (rows ++ [row]) .refund reference =
      requestedAmount rows .refund reference + if reference = row.reference then row.amountMinorUnits else 0 := by
    intro reference
    rw [requestedAmount_append]
    by_cases he : reference = row.reference
    · subst he
      rw [if_pos ⟨ho, rfl, hp⟩, if_pos rfl, hzero, zero_add]
    · rw [if_neg fun hr => he hr.2.1.symm, if_neg he, add_zero]
  have hone : ((openRefunds (rows ++ [row])).map fun reference =>
      if reference = row.reference then row.amountMinorUnits else 0).sum ≤ row.amountMinorUnits := by
    have hle := Lists.sum_le_of_support (fun reference => if reference = row.reference then row.amountMinorUnits else 0)
      (openRefunds (rows ++ [row])) [row.reference] (nodup_openRefunds _) ?_ ?_
    · simpa using hle
    · intro reference _ hne
      by_contra hnot
      rw [List.mem_singleton] at hnot
      exact hne (if_neg hnot)
    · intro reference _
      split_ifs <;> omega
  have hrest : ((openRefunds (rows ++ [row])).map (requestedAmount rows .refund)).sum ≤ refundedOf rows :=
    Lists.sum_le_of_support _ _ _ (nodup_openRefunds (rows ++ [row]))
      (fun reference hr hne => openRefunds_before rows row reference hr hne)
      fun reference _ => requestedAmount_nonneg .refund rows h reference
  have hmap : refundedOf (rows ++ [row]) = ((openRefunds (rows ++ [row])).map (requestedAmount rows .refund)).sum +
      ((openRefunds (rows ++ [row])).map fun reference =>
        if reference = row.reference then row.amountMinorUnits else 0).sum := by
    rw [← List.sum_map_add]
    exact congrArg List.sum (List.map_congr_left fun reference _ => hsplit reference)
  omega

-- Rows of other operations do not count.
theorem capturedOf_append (rows : List JournalEntry) (row : JournalEntry) (h : row.operation ≠ .capture) :
    capturedOf (rows ++ [row]) = capturedOf rows := by
  have hrefs : references .capture (rows ++ [row]) = references .capture rows := by
    rw [references, references, List.filter_append]
    simp [h]
  have hphase : ∀ reference, hasPhase (rows ++ [row]) .capture .succeeded reference =
      hasPhase rows .capture .succeeded reference := by
    intro reference
    simp [hasPhase, h]
  have hamount : ∀ reference, requestedAmount (rows ++ [row]) .capture reference =
      requestedAmount rows .capture reference := by
    intro reference
    rw [requestedAmount_append, if_neg fun hr => h hr.1]
  rw [capturedOf, capturedOf, hrefs, funext hphase, funext hamount]

end Sums

end AgenticOrg.Commerce
