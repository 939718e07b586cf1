import Mathlib.Data.List.Dedup
import AgenticOrg.Spend.Rollups.Theorems

namespace AgenticOrg.Spend

open Tables OrderedDict Fallible

section Upserts

def merged (stored : Option RollupRow) (proposed : RollupRow) : RollupRow :=
  match stored with
  | none => proposed
  | some stored => addToRow proposed.delta stored

-- The row proposed and the row it makes both pass the table's checks.
structure Acceptable (stored : Option RollupRow) (proposed : RollupRow) : Prop where
  range : proposed.delta.inRange = true
  counted : proposed.delta.counted = true
  rangeAfter : (merged stored proposed).delta.inRange = true
  countedAfter : (merged stored proposed).delta.counted = true

theorem checkRow_ok (delta : Delta) (hr : delta.inRange = true) (hc : delta.counted = true) :
    checkRow delta = .ok () := by
  simp [checkRow, hr, hc]

theorem insertRow_ok (rows : Table RollupRow) (row : RollupRow) (hr : row.delta.inRange = true)
    (hc : row.delta.counted = true) (hfree : rows.find? (Keyed.key row) = none) :
    ∃ rows', insertRow rows row = .ok rows' ∧ rows'.rows = rows.rows ++ [row] ∧ rows.insert? row = some rows' := by
  obtain ⟨rows', hins, hrows⟩ := Table.insert?_of_absent rows row hfree
  refine ⟨rows', ?_, hrows, hins⟩
  rw [insertRow, checkRow_ok row.delta hr hc, ok_bind, hins]

theorem upsertRow_ok (rows : Table RollupRow) (proposed : RollupRow)
    (h : Acceptable (rows.find? (Keyed.key proposed)) proposed) :
    ∃ rows', upsertRow rows proposed = .ok rows' ∧ ∀ key, rows'.find? key =
      if Keyed.key proposed = key then some (merged (rows.find? key) proposed) else rows.find? key := by
  have hkey : (proposed.day, proposed.digest) = Keyed.key proposed := rfl
  rw [upsertRow, hkey]
  split
  · rename_i hfree
    obtain ⟨rows', hins, _, htable⟩ := insertRow_ok rows proposed h.range h.counted hfree
    refine ⟨rows', hins, fun key => ?_⟩
    rw [Table.find?_of_insert? rows rows' proposed htable key]
    split
    · rename_i hk
      rw [← hk, hfree, merged]
    · rfl
  · rename_i stored hstored
    rw [hstored] at h
    have hafter : checkRow (proposed.delta.addedTo stored.delta) = .ok () :=
      checkRow_ok _ h.rangeAfter h.countedAfter
    rw [checkRow_ok _ h.range h.counted, ok_bind, hafter, ok_bind]
    refine ⟨_, rfl, fun key => ?_⟩
    refine (Table.find?_modify rows (Keyed.key proposed) (addToRow proposed.delta) (fun _ => rfl) key).trans ?_
    split
    · rename_i hk
      rw [← hk, hstored]
      rfl
    · rfl

theorem upsertRows_ok (proposed : List RollupRow) (rows : Table RollupRow)
    (hkeys : (proposed.map Keyed.key).Nodup)
    (h : ∀ row ∈ proposed, Acceptable (rows.find? (Keyed.key row)) row) :
    ∃ rows', proposed.foldlM upsertRow rows = .ok rows' ∧
      (∀ row ∈ proposed, rows'.find? (Keyed.key row) = some (merged (rows.find? (Keyed.key row)) row)) ∧
      ∀ key, (∀ row ∈ proposed, Keyed.key row ≠ key) → rows'.find? key = rows.find? key := by
  induction proposed generalizing rows with
  | nil => exact ⟨rows, rfl, fun _ hr => absurd hr List.not_mem_nil, fun _ _ => rfl⟩
  | cons first rest ih =>
      rw [List.map_cons, List.nodup_cons] at hkeys
      obtain ⟨mid, hmid, hfind⟩ := upsertRow_ok rows first (h first List.mem_cons_self)
      have hother : ∀ row ∈ rest, Keyed.key first ≠ Keyed.key row := by
        intro row hr he
        exact hkeys.1 (he ▸ List.mem_map_of_mem hr)
      have hsame : ∀ row ∈ rest, mid.find? (Keyed.key row) = rows.find? (Keyed.key row) := by
        intro row hr
        rw [hfind, if_neg (hother row hr)]
      obtain ⟨rows', hrows, hin, hout⟩ := ih mid hkeys.2 (by
        intro row hr
        rw [hsame row hr]
        exact h row (List.mem_cons_of_mem _ hr))
      refine ⟨rows', ?_, ?_, ?_⟩
      · rw [List.foldlM_cons, hmid, ok_bind, hrows]
      · intro row hr
        rcases List.mem_cons.mp hr with rfl | hr
        · rw [hout _ fun other ho he => hother other ho he.symm, hfind, if_pos rfl]
        · rw [hin row hr, hsame row hr]
      · intro key hfree
        rw [hout key fun row hr => hfree row (List.mem_cons_of_mem _ hr), hfind,
          if_neg (hfree first List.mem_cons_self)]

theorem mem_liveRows (deltas : Deltas) (row : RollupRow) :
    row ∈ liveRows deltas ↔
      deltas.get? (Keyed.key row) = some (row.dims, row.delta) ∧ row.delta.isZero = false := by
  constructor
  · intro hr
    obtain ⟨entry, he, rfl⟩ := List.mem_map.mp hr
    obtain ⟨he, hz⟩ := List.mem_filter.mp he
    exact ⟨Dict.get?_of_mem deltas entry he, Bool.not_eq_true' _ ▸ hz⟩
  · rintro ⟨hget, hz⟩
    have hmem := Dict.mem_of_get? deltas _ _ hget
    exact List.mem_map.mpr ⟨_, List.mem_filter.mpr ⟨hmem, by simpa using hz⟩, rfl⟩

theorem nodup_liveRows (deltas : Deltas) : ((liveRows deltas).map Keyed.key).Nodup := by
  have hkeys : (liveRows deltas).map Keyed.key =
      (deltas.entries.filter fun entry => !entry.2.2.isZero).map Prod.fst := by
    rw [liveRows, List.map_map]
    rfl
  rw [hkeys]
  refine (List.filter_sublist.map Prod.fst).nodup ?_
  refine (Dict.keys_distinct deltas).imp ?_
  intro a b hab he
  rw [he, beq_self_eq_true] at hab
  cases hab

-- What `apply_deltas` does when every row passes and none is left without records.
theorem applyDeltas_ok (deltas : Deltas) (rows : Table RollupRow)
    (h : ∀ row ∈ liveRows deltas, Acceptable (rows.find? (Keyed.key row)) row)
    (hlive : ∀ row ∈ liveRows deltas, (merged (rows.find? (Keyed.key row)) row).delta.counts .record ≠ 0)
    (hrows : ∀ row ∈ rows.rows, row.delta.counts .record ≠ 0) :
    ∃ rows', applyDeltas deltas rows = .ok rows' ∧
      (∀ row ∈ liveRows deltas,
        rows'.find? (Keyed.key row) = some (merged (rows.find? (Keyed.key row)) row)) ∧
      ∀ key, (∀ row ∈ liveRows deltas, Keyed.key row ≠ key) → rows'.find? key = rows.find? key := by
  by_cases hempty : (liveRows deltas).isEmpty = true
  · have hnil := List.isEmpty_iff.mp hempty
    refine ⟨rows, ?_, ?_, fun _ _ => rfl⟩
    · rw [applyDeltas, if_pos hempty]
    · rw [hnil]
      exact fun _ hr => absurd hr List.not_mem_nil
  · have hperm := List.mergeSort_perm (liveRows deltas) rowOrder
    obtain ⟨mid, hmid, hin, hout⟩ := upsertRows_ok ((liveRows deltas).mergeSort rowOrder) rows
      ((hperm.map _).nodup_iff.mpr (nodup_liveRows deltas)) fun row hr => h row (hperm.mem_iff.mp hr)
    have hchunks : (chunks UPSERT_CHUNK ((liveRows deltas).mergeSort rowOrder)).foldlM
        (fun rows chunk => chunk.foldlM upsertRow rows) rows = .ok mid := by
      rw [foldlM_chunks UPSERT_CHUNK (by decide), hmid]
    have hkept : ∀ key row, mid.find? key = some row → row.delta.counts .record ≠ 0 := by
      intro key row hr
      by_cases hk : ∃ proposed ∈ liveRows deltas, Keyed.key proposed = key
      · obtain ⟨proposed, hp, rfl⟩ := hk
        rw [hin proposed (hperm.mem_iff.mpr hp)] at hr
        rw [← Option.some.inj hr]
        exact hlive proposed hp
      · rw [hout key fun other ho he => hk ⟨other, hperm.mem_iff.mp ho, he⟩] at hr
        exact hrows row (Table.mem_of_find? rows key row hr).1
    have hfilter : ∀ (days : List Date) key,
        (mid.filter fun row => !(days.contains row.day && row.delta.counts .record = 0)).find? key =
          mid.find? key := by
      intro days key
      rw [Table.find?_filter]
      cases hr : mid.find? key with
      | none => rfl
      | some row => simp [Option.filter_some, hkept key row hr]
    refine ⟨mid.filter fun row =>
      !(((liveRows deltas).map (·.day)).contains row.day && row.delta.counts .record = 0), ?_, ?_, ?_⟩
    · rw [applyDeltas, if_neg hempty, hchunks, ok_bind]
      rfl
    · intro row hr
      rw [hfilter, hin row (hperm.mem_iff.mpr hr)]
    · intro key hfree
      rw [hfilter, hout key fun row hr => hfree row (hperm.mem_iff.mp hr)]

end Upserts

section Mirroring

variable (env : RollupEnv)

-- The rows are the totals of the records, one row for each key that has any.
structure Mirrors (records : List UsageRecord) (rows : Table RollupRow) : Prop where
  absent : ∀ key, rows.find? key = none → groupOf env key records = []
  present : ∀ key row, rows.find? key = some row → row.delta = totals (groupOf env key records) ∧
    ∃ record ∈ records, keyOf env record = key ∧ row.dims = dimsOf env record

-- No key loses a record, a call or a flag.
def NotLowered (before after : List UsageRecord) : Prop :=
  ∀ key field, (totals (groupOf env key before)).counts field ≤ (totals (groupOf env key after)).counts field

theorem exists_of_count (records : List UsageRecord) (key : RollupKey)
    (h : (totals (groupOf env key records)).counts .record ≠ 0) :
    ∃ record ∈ records, keyOf env record = key := by
  rw [totals_record] at h
  obtain ⟨record, hr⟩ := List.exists_mem_of_ne_nil (groupOf env key records) (by
    intro hnil
    simp [hnil] at h)
  exact ⟨record, (mem_groupOf env key records record).mp hr⟩

theorem Mirrors.nonzero (records : List UsageRecord) (rows : Table RollupRow) (h : Mirrors env records rows) :
    ∀ row ∈ rows.rows, row.delta.counts .record ≠ 0 := by
  intro row hr hzero
  obtain ⟨hdelta, record, hrecord, hkey, _⟩ :=
    h.present (Keyed.key row) row ((Table.find?_eq_some_iff rows _ row).mpr ⟨hr, rfl⟩)
  rw [hdelta] at hzero
  have hmem := (mem_groupOf env (Keyed.key row) records record).mpr ⟨hrecord, hkey⟩
  rw [eq_nil_of_totals _ hzero] at hmem
  cases hmem

theorem addedTo_totals_nil (delta : Delta) : delta.addedTo (totals []) = delta := by
  ext field <;> simp [Delta.addedTo, totals]

theorem addedTo_of_isZero (delta stored : Delta) (h : delta.isZero = true) : delta.addedTo stored = stored := by
  obtain ⟨hs, hc⟩ := (isZero_iff delta).mp h
  ext field
  · simp [Delta.addedTo, hs]
  · simp [Delta.addedTo, hc]

theorem merged_delta (records : List UsageRecord) (rows : Table RollupRow) (h : Mirrors env records rows)
    (proposed : RollupRow) :
    (merged (rows.find? (Keyed.key proposed)) proposed).delta =
      proposed.delta.addedTo (totals (groupOf env (Keyed.key proposed) records)) := by
  cases hf : rows.find? (Keyed.key proposed) with
  | none => rw [h.absent _ hf, addedTo_totals_nil, merged]
  | some stored => rw [← (h.present _ stored hf).1, merged, addToRow]

-- The difference of two totals that fit.
theorem inRange_of_addedTo (delta : Delta) (before after : List UsageRecord)
    (h : totals after = delta.addedTo (totals before)) (hb : (totals before).inRange = true)
    (ha : (totals after).inRange = true) : delta.inRange = true := by
  obtain ⟨hbs, hbc⟩ := (inRange_iff _).mp hb
  obtain ⟨has, hac⟩ := (inRange_iff _).mp ha
  refine (inRange_iff delta).mpr ⟨fun field => ?_, fun field => ?_⟩
  · have hsum : (totals after).sums field = (totals before).sums field + delta.sums field := by
      rw [h, Delta.addedTo]
    have hb0 := totals_sum_nonneg before field
    have ha0 := totals_sum_nonneg after field
    have hb1 := (abs_lt.mp (hbs field)).2
    have ha1 := (abs_lt.mp (has field)).2
    exact abs_lt.mpr ⟨by linarith, by linarith⟩
  · have hcount : (totals after).counts field = (totals before).counts field + delta.counts field := by
      rw [h, Delta.addedTo]
    have hb0 := totals_count_nonneg before field
    have ha0 := totals_count_nonneg after field
    have hb1 := (hbc field).2
    have ha1 := (hac field).2
    omega

theorem counted_totals (records : List UsageRecord) : (totals records).counted = true :=
  (counted_iff _).mpr (totals_count_nonneg records)

-- Deltas that lead from some totals to others take the rows there.
theorem Mirrors.applyDeltas (before after : List UsageRecord) (rows : Table RollupRow)
    (h : Mirrors env before rows) (deltas : Deltas) (hc : Carries env deltas before after)
    (hb : Roomy env before) (ha : Roomy env after) (hagree : Agree env (before ++ after))
    (hup : NotLowered env before after) :
    ∃ rows', applyDeltas deltas rows = .ok rows' ∧ Mirrors env after rows' := by
  have htotals : ∀ row ∈ liveRows deltas, totals (groupOf env (Keyed.key row) after) =
      row.delta.addedTo (totals (groupOf env (Keyed.key row) before)) := by
    intro row hr
    exact (hc.present _ _ ((mem_liveRows deltas row).mp hr).1).1
  have hmerged : ∀ row ∈ liveRows deltas, (merged (rows.find? (Keyed.key row)) row).delta =
      totals (groupOf env (Keyed.key row) after) := by
    intro row hr
    rw [merged_delta env before rows h row, htotals row hr]
  -- a key without records afterwards had none before, and then there is nothing to carry
  have hcount : ∀ row ∈ liveRows deltas, (totals (groupOf env (Keyed.key row) after)).counts .record ≠ 0 := by
    intro row hr hzero
    have hle := hup (Keyed.key row) .record
    have hge := totals_count_nonneg (groupOf env (Keyed.key row) before) .record
    have hnil := eq_nil_of_totals (groupOf env (Keyed.key row) before) (by omega)
    have hafter := htotals row hr
    rw [eq_nil_of_totals _ hzero, hnil, addedTo_totals_nil] at hafter
    have hlive := ((mem_liveRows deltas row).mp hr).2
    rw [← hafter] at hlive
    cases hlive
  obtain ⟨rows', hok, hin, hout⟩ := applyDeltas_ok deltas rows
    (by
      intro row hr
      have hcounted : row.delta.counted = true := by
        refine (counted_iff _).mpr fun field => ?_
        have hle := hup (Keyed.key row) field
        rw [htotals row hr, Delta.addedTo] at hle
        simpa using hle
      refine ⟨inRange_of_addedTo _ _ _ (htotals row hr) (hb _) (ha _), hcounted, ?_, ?_⟩
      · rw [hmerged row hr]
        exact ha _
      · rw [hmerged row hr]
        exact counted_totals _)
    (by
      intro row hr
      rw [hmerged row hr]
      exact hcount row hr)
    (h.nonzero env before rows)
  have hstay : ∀ key, (∀ row ∈ liveRows deltas, Keyed.key row ≠ key) →
      totals (groupOf env key after) = totals (groupOf env key before) := by
    intro key hfree
    cases hg : deltas.get? key with
    | none => exact hc.absent key hg
    | some entry =>
        have hzero : entry.2.isZero = true := by
          by_contra hlive
          exact hfree (rowValues (key, entry)) ((mem_liveRows deltas _).mpr
            ⟨hg, Bool.eq_false_iff.mpr hlive⟩) rfl
        rw [(hc.present key entry hg).1, addedTo_of_isZero _ _ hzero]
  -- the dimensions are those of any record of the key
  have hdims : ∀ key, (totals (groupOf env key after)).counts .record ≠ 0 → ∀ old ∈ before ++ after,
      keyOf env old = key → ∃ record ∈ after, keyOf env record = key ∧ dimsOf env old = dimsOf env record := by
    intro key hne old ho hk
    obtain ⟨record, hr, hkr⟩ := exists_of_count env after key hne
    refine ⟨record, hr, hkr, congrArg (Dims.canon env.strip) ?_⟩
    exact hagree old ho record (List.mem_append_right _ hr) (hk.trans hkr.symm)
  refine ⟨rows', hok, ?_, ?_⟩
  · intro key hnone
    by_cases hk : ∃ row ∈ liveRows deltas, Keyed.key row = key
    · obtain ⟨row, hr, rfl⟩ := hk
      rw [hin row hr] at hnone
      cases hnone
    · have hfree : ∀ row ∈ liveRows deltas, Keyed.key row ≠ key := fun row hr he => hk ⟨row, hr, he⟩
      rw [hout key hfree] at hnone
      refine eq_nil_of_totals _ ?_
      rw [hstay key hfree, h.absent key hnone]
      rfl
  · intro key found hfound
    by_cases hk : ∃ row ∈ liveRows deltas, Keyed.key row = key
    · obtain ⟨row, hr, rfl⟩ := hk
      rw [hin row hr] at hfound
      rw [← Option.some.inj hfound]
      refine ⟨hmerged row hr, ?_⟩
      obtain ⟨old, ho, hko, hdo⟩ : ∃ old ∈ before ++ after, keyOf env old = Keyed.key row ∧
          (merged (rows.find? (Keyed.key row)) row).dims = dimsOf env old := by
        cases hs : rows.find? (Keyed.key row) with
        | none =>
            obtain ⟨old, ho, hko, hdo⟩ := (hc.present _ _ ((mem_liveRows deltas row).mp hr).1).2
            exact ⟨old, ho, hko, hdo.symm⟩
        | some stored =>
            obtain ⟨_, old, ho, hko, hdo⟩ := h.present _ stored hs
            exact ⟨old, List.mem_append_left _ ho, hko, hdo⟩
      obtain ⟨record, hrec, hkr, hdr⟩ := hdims _ (hcount row hr) old ho hko
      exact ⟨record, hrec, hkr, hdo.trans hdr⟩
    · have hfree : ∀ row ∈ liveRows deltas, Keyed.key row ≠ key := fun row hr he => hk ⟨row, hr, he⟩
      rw [hout key hfree] at hfound
      obtain ⟨hdelta, old, ho, hko, hdo⟩ := h.present key found hfound
      have hne : (totals (groupOf env key after)).counts .record ≠ 0 := by
        rw [hstay key hfree, ← hdelta]
        exact h.nonzero env before rows found (Table.mem_of_find? rows key found hfound).1
      obtain ⟨record, hrec, hkr, hdr⟩ := hdims key hne old (List.mem_append_left _ ho) hko
      exact ⟨hdelta.trans (hstay key hfree).symm, record, hrec, hkr, hdo.trans hdr⟩

end Mirroring

section Rebuilding

variable (env : RollupEnv)

theorem sqlSum_getD (values : List (Option ℚ)) : (sqlSum values).getD 0 = (values.map (·.getD 0)).sum := by
  have hknown : (sqlSum values).getD 0 = (values.filterMap id).sum := by
    unfold sqlSum
    split
    · rename_i hnil
      rw [hnil]
      rfl
    · rfl
  rw [hknown]
  clear hknown
  induction values with
  | nil => rfl
  | cons value rest ih =>
      cases value with
      | none => simpa using ih
      | some value => simpa using ih

theorem selectedSum_getD (record : UsageRecord) (field : SumField) :
    (selectedSum record field).getD 0 = contributedSum record field := by
  cases field with
  | unconvertedAmount =>
      rw [selectedSum, contributedSum]
      split <;> rfl
  | quantity => rfl
  | amount => rfl
  | amountInr => rfl
  | unpricedQuantity => rfl
  | overageQuantity => rfl

theorem groupDelta_eq (group : List UsageRecord) : groupDelta group = totals group := by
  ext field
  · rw [groupDelta, totals]
    refine (sqlSum_getD _).trans ?_
    rw [List.map_map]
    exact congrArg List.sum (List.map_congr_left fun record _ => selectedSum_getD record field)
  · rw [groupDelta, totals]
    refine congrArg List.sum (List.map_congr_left fun record _ => ?_)
    cases field <;> rfl

theorem insertRows_ok (values : List RollupRow) (rows : Table RollupRow) (hkeys : (values.map Keyed.key).Nodup)
    (hfree : ∀ row ∈ values, rows.find? (Keyed.key row) = none)
    (hcheck : ∀ row ∈ values, row.delta.inRange = true ∧ row.delta.counted = true) :
    ∃ rows', values.foldlM insertRow rows = .ok rows' ∧ rows'.rows = rows.rows ++ values := by
  induction values generalizing rows with
  | nil => exact ⟨rows, rfl, (List.append_nil _).symm⟩
  | cons first rest ih =>
      rw [List.map_cons, List.nodup_cons] at hkeys
      obtain ⟨hr, hc⟩ := hcheck first List.mem_cons_self
      obtain ⟨mid, hmid, hrows, htable⟩ := insertRow_ok rows first hr hc (hfree first List.mem_cons_self)
      obtain ⟨rows', hok, hlast⟩ := ih mid hkeys.2
        (by
          intro row hrow
          rw [Table.find?_of_insert? rows mid first htable, if_neg ?_]
          · exact hfree row (List.mem_cons_of_mem _ hrow)
          · intro he
            exact hkeys.1 (he ▸ List.mem_map_of_mem hrow))
        (fun row hrow => hcheck row (List.mem_cons_of_mem _ hrow))
      refine ⟨rows', ?_, ?_⟩
      · rw [List.foldlM_cons, hmid, ok_bind, hok]
      · rw [hlast, hrows, List.append_assoc, List.singleton_append]

variable (day : Date) (records : List UsageRecord)

-- A group of the statement is what a row sums.
theorem groupRow_eq (hagree : Agree env records)
    (hwithin : ∀ record ∈ records, record.eventDate = day → record.within env day = true)
    (record : UsageRecord) (hr : record ∈ records) (hd : record.eventDate = day) :
    groupRow env day (records.filter fun record => record.eventDate = day && record.within env day) record.dims =
      ⟨day, dimsHash env (dimsOf env record), dimsOf env record, totals (groupOf env (keyOf env record) records)⟩ := by
  rw [groupRow, groupDelta_eq, List.filter_filter, groupOf]
  congr 2
  refine List.filter_congr fun other ho => ?_
  rw [Bool.eq_iff_iff]
  simp only [Bool.and_eq_true, decide_eq_true_eq]
  constructor
  · rintro ⟨hdims, hday, _⟩
    rw [keyOf, keyOf, dimsOf, dimsOf, hdims, hday, hd]
  · intro hkey
    have hday : other.eventDate = day := (congrArg Prod.fst hkey).trans hd
    exact ⟨hagree other ho record hr hkey, hday, hwithin other ho hday⟩

theorem mem_groupRows (hagree : Agree env records)
    (hwithin : ∀ record ∈ records, record.eventDate = day → record.within env day = true) (row : RollupRow) :
    row ∈ groupRows env day records ↔ ∃ record ∈ records, record.eventDate = day ∧
      row = ⟨day, dimsHash env (dimsOf env record), dimsOf env record,
        totals (groupOf env (keyOf env record) records)⟩ := by
  rw [groupRows, List.mem_map]
  constructor
  · rintro ⟨dims, hdims, rfl⟩
    obtain ⟨record, hr, rfl⟩ := List.mem_map.mp (List.mem_dedup.mp hdims)
    obtain ⟨hr, htest⟩ := List.mem_filter.mp hr
    simp only [Bool.and_eq_true, decide_eq_true_eq] at htest
    exact ⟨record, hr, htest.1, groupRow_eq env day records hagree hwithin record hr htest.1⟩
  · rintro ⟨record, hr, hd, rfl⟩
    refine ⟨record.dims, ?_, groupRow_eq env day records hagree hwithin record hr hd⟩
    refine List.mem_dedup.mpr (List.mem_map_of_mem (List.mem_filter.mpr ⟨hr, ?_⟩))
    simp [hd, hwithin record hr hd]

theorem nodup_groupRows (hagree : Agree env records) :
    ((groupRows env day records).map Keyed.key).Nodup := by
  rw [groupRows, List.map_map]
  refine List.Nodup.map_on ?_ (List.nodup_dedup _)
  intro a ha b hb hkey
  obtain ⟨first, hf, rfl⟩ := List.mem_map.mp (List.mem_dedup.mp ha)
  obtain ⟨second, hs, rfl⟩ := List.mem_map.mp (List.mem_dedup.mp hb)
  obtain ⟨hf, htestf⟩ := List.mem_filter.mp hf
  obtain ⟨hs, htests⟩ := List.mem_filter.mp hs
  simp only [Bool.and_eq_true, decide_eq_true_eq] at htestf htests
  refine hagree first hf second hs ?_
  rw [keyOf, keyOf, htestf.1, htests.1]
  exact hkey

theorem Mirrors.rebuildDay (rows : Table RollupRow) (h : Mirrors env records rows) (hroom : Roomy env records)
    (hagree : Agree env records)
    (hwithin : ∀ record ∈ records, record.eventDate = day → record.within env day = true) :
    ∃ rows', rebuildDay env day records rows = .ok rows' ∧ Mirrors env records rows' := by
  have hperm := List.mergeSort_perm (groupRows env day records) fun a b => decide (a.digest ≤ b.digest)
  have hrow : ∀ row ∈ (groupRows env day records).mergeSort fun a b => decide (a.digest ≤ b.digest),
      ∃ record ∈ records, record.eventDate = day ∧ row = ⟨day, dimsHash env (dimsOf env record),
        dimsOf env record, totals (groupOf env (keyOf env record) records)⟩ :=
    fun row hr => (mem_groupRows env day records hagree hwithin row).mp (hperm.mem_iff.mp hr)
  obtain ⟨rows', hok, hrows⟩ := insertRows_ok _ (rows.filter fun row => row.day ≠ day)
    ((hperm.map _).nodup_iff.mpr (nodup_groupRows env day records hagree))
    (by
      intro row hr
      obtain ⟨record, _, _, rfl⟩ := hrow row hr
      rw [Table.find?_eq_none_iff]
      intro other ho he
      have hday := of_decide_eq_true (List.mem_filter.mp ho).2
      exact hday (congrArg Prod.fst he))
    (by
      intro row hr
      obtain ⟨record, _, _, rfl⟩ := hrow row hr
      exact ⟨hroom _, counted_totals _⟩)
  refine ⟨rows', ?_, ?_, ?_⟩
  · rw [Spend.rebuildDay, foldlM_chunks UPSERT_CHUNK (by decide), hok]
  · intro key hnone
    rw [Table.find?_eq_none_iff, hrows] at hnone
    rw [List.eq_nil_iff_forall_not_mem]
    intro record hmem
    obtain ⟨hr, rfl⟩ := (mem_groupOf env key records record).mp hmem
    by_cases hd : record.eventDate = day
    · refine hnone _ (List.mem_append_right _ (hperm.mem_iff.mpr
        ((mem_groupRows env day records hagree hwithin _).mpr ⟨record, hr, hd, rfl⟩))) ?_
      rw [keyOf, hd]
      rfl
    · cases hf : rows.find? (keyOf env record) with
      | none =>
          rw [h.absent _ hf] at hmem
          cases hmem
      | some row =>
          obtain ⟨hrow, hk⟩ := Table.mem_of_find? rows _ row hf
          have hday : row.day ≠ day := fun he => hd ((congrArg Prod.fst hk).symm.trans he)
          exact hnone row (List.mem_append_left _ (List.mem_filter.mpr ⟨hrow, decide_eq_true hday⟩)) hk
  · intro key row hf
    obtain ⟨hmem, rfl⟩ := Table.mem_of_find? rows' key row hf
    rw [hrows, List.mem_append] at hmem
    rcases hmem with hmem | hmem
    · exact h.present _ row ((Table.find?_eq_some_iff rows _ row).mpr ⟨List.mem_of_mem_filter hmem, rfl⟩)
    · obtain ⟨record, hr, hd, rfl⟩ := hrow row hmem
      have hkey : keyOf env record = (day, dimsHash env (dimsOf env record)) := by rw [keyOf, hd]
      refine ⟨?_, record, hr, hkey, rfl⟩
      rw [hkey]
      rfl

-- Two tables that mirror the same records are the same to a reader.
theorem Mirrors.find?_eq (rows rows' : Table RollupRow) (h : Mirrors env records rows)
    (h' : Mirrors env records rows') (hagree : Agree env records) (key : RollupKey) :
    rows'.find? key = rows.find? key := by
  have hsome : ∀ table row, Mirrors env records table → table.find? key = some row →
      groupOf env key records ≠ [] := by
    intro table row hm hf hnil
    obtain ⟨_, record, hr, hk, _⟩ := hm.present key row hf
    have hmem := (mem_groupOf env key records record).mpr ⟨hr, hk⟩
    rw [hnil] at hmem
    cases hmem
  cases hf : rows.find? key with
  | none =>
      cases hf' : rows'.find? key with
      | none => rfl
      | some row => exact absurd (h.absent key hf) (hsome rows' row h' hf')
  | some row =>
      cases hf' : rows'.find? key with
      | none => exact absurd (h'.absent key hf') (hsome rows row h hf)
      | some row' =>
          obtain ⟨hdelta, a, ha, hka, hda⟩ := h.present key row hf
          obtain ⟨hdelta', b, hb, hkb, hdb⟩ := h'.present key row' hf'
          have hk := (Table.mem_of_find? rows key row hf).2
          have hk' := (Table.mem_of_find? rows' key row' hf').2
          have hdims : row'.dims = row.dims := by
            rw [hda, hdb, dimsOf, dimsOf, hagree a ha b hb (hka.trans hkb.symm)]
          have hday : row'.day = row.day := congrArg Prod.fst (hk'.trans hk.symm)
          have hdigest : row'.digest = row.digest := congrArg Prod.snd (hk'.trans hk.symm)
          have hfigures : row'.delta = row.delta := hdelta'.trans hdelta.symm
          cases row
          cases row'
          simp_all

end Rebuilding

section Runs

variable (env : RollupEnv)

-- What keeps a step clear of the table's checks, read off the records before it and the step itself.
def Meets (state : RollupState) : RollupStep → Prop
  | .insert records =>
      Roomy env (writeRecords records state.records).1.rows ∧ Agree env (writeRecords records state.records).1.rows
  | .revise change =>
      NotLowered env state.records.rows (state.records.rows.map (revised change)) ∧
        Roomy env (state.records.rows.map (revised change)) ∧
        Agree env (state.records.rows ++ state.records.rows.map (revised change))
  | .rebuild day => ∀ record ∈ state.records.rows, record.eventDate = day → record.within env day = true

def MeetsAll : RollupState → List RollupStep → Prop
  | _, [] => True
  | state, step :: rest =>
      Meets env state step ∧ ∀ next, RollupStep.after env state step = .ok next → MeetsAll next rest

-- The rows are what `aggregate` makes of the records.
def Kept (state : RollupState) : Prop :=
  (∀ key, (state.rows.find? key).map (fun row => (row.dims, row.delta)) =
    (aggregate env state.records.rows).get? key) ∧
  ∀ row ∈ state.rows.rows, row.delta.counts .record ≠ 0

structure InStep (state : RollupState) : Prop where
  mirrors : Mirrors env state.records.rows state.rows
  roomy : Roomy env state.records.rows
  agree : Agree env state.records.rows

theorem inStep_empty : InStep env .empty where
  mirrors := ⟨fun _ _ => rfl, fun _ _ h => by cases h⟩
  roomy := by
    intro key
    have hnil : (totals []).inRange = true := by decide +kernel
    exact hnil
  agree := fun _ ha => absurd ha List.not_mem_nil

theorem writeRecords_rows (new : List UsageRecord) (records : Table UsageRecord) :
    (writeRecords new records).1.rows = records.rows ++ (writeRecords new records).2 := by
  induction new generalizing records with
  | nil => exact (List.append_nil _).symm
  | cons record rest ih =>
      rw [writeRecords]
      split
      · exact ih records
      · rename_i next hins
        rw [ih next, (Table.rows_insert? records next record hins).1, List.append_assoc, List.singleton_append]

theorem Agree.sublist (records all : List UsageRecord) (h : Agree env all) (hs : records ⊆ all) :
    Agree env records :=
  fun a ha b hb => h a (hs ha) b (hs hb)

theorem notLowered_append (records more : List UsageRecord) : NotLowered env records (records ++ more) := by
  intro key field
  rw [groupOf_append, totals_append, Delta.addedTo]
  have hge := totals_count_nonneg (groupOf env key more) field
  simpa using hge

theorem InStep.after (state : RollupState) (h : InStep env state) (step : RollupStep)
    (hm : Meets env state step) :
    ∃ next, RollupStep.after env state step = .ok next ∧ InStep env next := by
  cases step with
  | insert records =>
      obtain ⟨hroom, hagree⟩ := hm
      have hrows := writeRecords_rows records state.records
      have hroom' := hroom
      have hagree' := hagree
      rw [hrows] at hroom' hagree'
      obtain ⟨rows, hok, hmirrors⟩ := h.mirrors.applyDeltas env _ _ state.rows
        (aggregate env (writeRecords records state.records).2)
        (carries_aggregate env state.records.rows _ (hroom'.sumsFit env) hagree') h.roomy hroom'
        (hagree'.sublist env _ _ (by simp)) (notLowered_append env _ _)
      refine ⟨⟨(writeRecords records state.records).1, rows⟩, ?_, ?_, hroom, hagree⟩
      · rw [RollupStep.after, hok, ok_bind]
        rfl
      · rw [hrows]
        exact hmirrors
  | revise change =>
      obtain ⟨hup, hroom, hagree⟩ := hm
      obtain ⟨rows, hok, hmirrors⟩ := h.mirrors.applyDeltas env _ _ state.rows
        (state.records.rows.foldl (moveRevised env change) .empty)
        (carries_moved env change state.records.rows (h.roomy.sumsFit env) (hroom.sumsFit env) hagree)
        h.roomy hroom hagree hup
      refine ⟨⟨state.records.map (revised change) (revised_id change), rows⟩, ?_, hmirrors, hroom, ?_⟩
      · rw [RollupStep.after, hok, ok_bind]
        rfl
      · exact hagree.sublist env _ _ (List.subset_append_right _ _)
  | rebuild day =>
      obtain ⟨rows, hok, hmirrors⟩ := h.mirrors.rebuildDay env day state.records.rows state.rows h.roomy
        h.agree hm
      refine ⟨⟨state.records, rows⟩, ?_, hmirrors, h.roomy, h.agree⟩
      rw [RollupStep.after, hok, ok_bind]
      rfl

theorem InStep.run (steps front : List RollupStep) (hf : front <+: steps) (state : RollupState)
    (h : InStep env state) (hm : MeetsAll env state steps) :
    ∃ last, front.foldlM (RollupStep.after env) state = .ok last ∧ InStep env last := by
  induction front generalizing steps state with
  | nil => exact ⟨state, rfl, h⟩
  | cons step front ih =>
      obtain ⟨rest, rfl⟩ := hf
      obtain ⟨hmeets, hrest⟩ := hm
      obtain ⟨next, hok, hnext⟩ := h.after env state step hmeets
      obtain ⟨last, hlast, hin⟩ := ih (front ++ rest) (List.prefix_append _ _) next hnext (hrest next hok)
      refine ⟨last, ?_, hin⟩
      rw [List.foldlM_cons, hok, ok_bind, hlast]

theorem InStep.kept (state : RollupState) (h : InStep env state) : Kept env state := by
  refine ⟨fun key => ?_, h.mirrors.nonzero env _ _⟩
  cases hf : state.rows.find? key with
  | none => exact (get?_aggregate_none env _ key (h.mirrors.absent key hf)).symm
  | some row =>
      obtain ⟨hdelta, record, hr, rfl, hdims⟩ := h.mirrors.present key row hf
      rw [get?_aggregate_some env _ (h.roomy.sumsFit env) h.agree record hr, Option.map_some, hdelta, hdims]

theorem upsertRow_refused (rows : Table RollupRow) (proposed : RollupRow) (h : proposed.delta.counted = false) :
    ∀ rows', upsertRow rows proposed ≠ .ok rows' := by
  have hcheck : checkRow proposed.delta ≠ .ok () := by
    unfold checkRow
    split
    · intro hok
      cases hok
    · simp [h]
  intro rows' hok
  rw [upsertRow] at hok
  split at hok
  · obtain ⟨_, hc, _⟩ := (bind_ok _ _ _).mp hok
    exact hcheck hc
  · obtain ⟨_, hc, _⟩ := (bind_ok _ _ _).mp hok
    exact hcheck hc

theorem upsertRows_refused (proposed : List RollupRow) (rows : Table RollupRow) (row : RollupRow)
    (hr : row ∈ proposed) (h : row.delta.counted = false) :
    ∀ rows', proposed.foldlM upsertRow rows ≠ .ok rows' := by
  induction proposed generalizing rows with
  | nil => exact absurd hr List.not_mem_nil
  | cons first rest ih =>
      intro rows' hok
      rw [List.foldlM_cons, bind_ok] at hok
      obtain ⟨mid, hmid, hok⟩ := hok
      rcases List.mem_cons.mp hr with rfl | hr
      · exact upsertRow_refused rows row h mid hmid
      · exact ih mid hr rows' hok

-- A batch that takes from a count of some row is refused, and only such a batch.
theorem revise_ok_iff (state : RollupState) (h : InStep env state) (change : UsageRecord → Option UsageRecord)
    (hroom : Roomy env (state.records.rows.map (revised change)))
    (hagree : Agree env (state.records.rows ++ state.records.rows.map (revised change))) :
    (∃ next, RollupStep.after env state (.revise change) = .ok next) ↔
      NotLowered env state.records.rows (state.records.rows.map (revised change)) := by
  constructor
  · rintro ⟨next, hok⟩ key field
    by_contra hlow
    have hcarries := carries_moved env change state.records.rows (h.roomy.sumsFit env) (hroom.sumsFit env) hagree
    obtain ⟨rows, hrows, _⟩ := (bind_ok _ _ _).mp hok
    cases hget : (state.records.rows.foldl (moveRevised env change) .empty).get? key with
    | none =>
        rw [hcarries.absent key hget] at hlow
        exact hlow (le_refl _)
    | some entry =>
        have hneg : entry.2.counts field < 0 := by
          rw [(hcarries.present key entry hget).1, Delta.addedTo] at hlow
          simpa using hlow
        have hcounted : entry.2.counted = false := by
          rw [Bool.eq_false_iff]
          intro hc
          exact absurd ((counted_iff _).mp hc field) (not_le.mpr hneg)
        have hzero : entry.2.isZero = false := by
          rw [Bool.eq_false_iff]
          intro hz
          exact absurd (((isZero_iff _).mp hz).2 field) (ne_of_lt hneg)
        have hlive : rowValues (key, entry) ∈
            liveRows (state.records.rows.foldl (moveRevised env change) .empty) :=
          (mem_liveRows _ _).mpr ⟨hget, hzero⟩
        rw [applyDeltas, if_neg ?_] at hrows
        · obtain ⟨mid, hmid, _⟩ := (bind_ok _ _ _).mp hrows
          rw [foldlM_chunks UPSERT_CHUNK (by decide)] at hmid
          exact upsertRows_refused _ state.rows (rowValues (key, entry)) (List.mem_mergeSort.mpr hlive)
            hcounted mid hmid
        · rw [List.isEmpty_iff]
          exact List.ne_nil_of_mem hlive
  · intro hup
    obtain ⟨next, hok, _⟩ := h.after env state (.revise change) ⟨hup, hroom, hagree⟩
    exact ⟨next, hok⟩

-- In a run whose steps all meet the condition every step succeeds, the rows are the aggregate of the
-- records in every state reached, and no rebuild changes them.
theorem rollups_kept (steps : List RollupStep) (h : MeetsAll env .empty steps) (front : List RollupStep)
    (hf : front <+: steps) :
    ∃ state, rollupsAfter env front = .ok state ∧ Kept env state ∧
      ∀ day, Meets env state (.rebuild day) → ∃ next, RollupStep.after env state (.rebuild day) = .ok next ∧
        ∀ key, next.rows.find? key = state.rows.find? key := by
  obtain ⟨state, hok, hin⟩ := InStep.run env steps front hf .empty (inStep_empty env) h
  refine ⟨state, hok, hin.kept env state, fun day hday => ?_⟩
  obtain ⟨rows, hrebuild, hmirrors⟩ := hin.mirrors.rebuildDay env day state.records.rows state.rows hin.roomy
    hin.agree hday
  refine ⟨⟨state.records, rows⟩, ?_, ?_⟩
  · rw [RollupStep.after, hrebuild, ok_bind]
    rfl
  · exact hin.mirrors.find?_eq env state.records.rows state.rows rows hmirrors hin.agree

end Runs

section Sample

def sampleDims : Dims where
  billingDate := 739677
  orgNodeId := none
  businessUnitNodeId := none
  attributionPath := none
  unattributedReason := some "no_mapping"
  productLine := none
  useCase := "support"
  application := "agents"
  agentId := none
  provider := "openai"
  model := "gpt-4o"
  usageType := "llm_tokens"
  unit := "input_token"
  currency := some "USD"
  rateCardId := some "5e0a9d1c-7a51-4c58-9b1e-3f0f6d3f2a10"
  priceSource := "contract"
  commitmentId := none
  billingAccount := some "tenant_key"
  region := none
  environment := "production"
  riskTier := none

-- 1200 tokens for 0.003 USD, in rupees at an earlier day's rate.
def sampleRecord : UsageRecord where
  id := "0195541e-3f00-7000-8000-000000000001"
  eventTime := 1772431200000000
  eventDate := 739677
  dims := sampleDims
  quantity := 1200000000
  calls := true
  amount := some 30000000
  amountInr := some 2600000000
  unpriced := false
  unconverted := false
  fxEstimated := true
  overage := false
  overageQuantity := 0
  allocated := false
  quantityEstimated := false
  priceEstimated := false

-- The libraries on the one text and the one day that occur.
def sampleEnv : RollupEnv where
  strip := id
  isoformat := fun _ => "2026-03-02"
  sha256 := fun _ => "93ae910d1e2b32f26507dee01400c19d6fdec1aadfcc7c189acfab3710b320cd"
  dayBounds := fun _ => (1772389800000000, 1772476200000000)

-- The settlement at the day's own rate, and one at a better estimate.
def settledRecord : UsageRecord := { sampleRecord with amountInr := some 2610000000, fxEstimated := false }

def estimatedRecord : UsageRecord := { sampleRecord with amountInr := some 2610000000 }

-- Settling the rate of one record takes one from a count, which the table refuses.
theorem settle_refused :
    ¬ ∃ state, rollupsAfter sampleEnv [.insert [sampleRecord], .revise fun _ => some settledRecord] = .ok state ∧
      Kept sampleEnv state := by
  have hfails : (rollupsAfter sampleEnv
      [.insert [sampleRecord], .revise fun _ => some settledRecord]).toOption.isNone = true := by
    decide +kernel
  rintro ⟨state, hok, _⟩
  rw [hok] at hfails
  cases hfails

theorem roomy_single (env : RollupEnv) (record : UsageRecord) (h : (totals [record]).inRange = true) :
    Roomy env [record] := by
  intro key
  have hnil : (totals []).inRange = true := by decide +kernel
  by_cases hk : keyOf env record = key
  · simpa [groupOf, hk] using h
  · simpa [groupOf, hk] using hnil

theorem notLowered_single (env : RollupEnv) (before after : UsageRecord) (hk : keyOf env before = keyOf env after)
    (hc : ∀ field, contributedCount before field ≤ contributedCount after field) :
    NotLowered env [before] [after] := by
  intro key field
  rw [counts_groupOf_cons, counts_groupOf_cons, hk]
  split
  · simpa [groupOf] using hc field
  · simp [groupOf]

theorem rollups_kept_estimated :
    MeetsAll sampleEnv .empty
      [.insert [sampleRecord], .revise fun _ => some estimatedRecord, .rebuild 739677] ∧
    ∃ state, rollupsAfter sampleEnv
      [.insert [sampleRecord], .revise fun _ => some estimatedRecord, .rebuild 739677] = .ok state ∧
      Kept sampleEnv state ∧ ∀ day, Meets sampleEnv state (.rebuild day) →
        ∃ next, RollupStep.after sampleEnv state (.rebuild day) = .ok next ∧
          ∀ key, next.rows.find? key = state.rows.find? key := by
  have hwritten : (writeRecords [sampleRecord] .empty).1.rows = [sampleRecord] := by decide +kernel
  have hrevised : [sampleRecord].map (revised fun _ => some estimatedRecord) = [estimatedRecord] := by
    decide +kernel
  have hdims : ∀ record ∈ [sampleRecord] ++ [estimatedRecord], record.dims = sampleDims := by decide +kernel
  have hmeets : MeetsAll sampleEnv .empty
      [.insert [sampleRecord], .revise fun _ => some estimatedRecord, .rebuild 739677] := by
    refine ⟨⟨?_, ?_⟩, ?_⟩
    · rw [RollupState.empty, hwritten]
      exact roomy_single sampleEnv sampleRecord (by decide +kernel)
    · rw [RollupState.empty, hwritten]
      simp [Agree]
    · intro first hfirst
      obtain ⟨rows, _, hfirst⟩ := (bind_ok _ _ _).mp hfirst
      rw [pure_ok] at hfirst
      have hrecords : first.records.rows = [sampleRecord] := by
        rw [← hfirst]
        exact hwritten
      refine ⟨⟨?_, ?_, ?_⟩, ?_⟩
      · rw [hrecords, hrevised]
        exact notLowered_single sampleEnv sampleRecord estimatedRecord rfl fun field => le_refl _
      · rw [hrecords, hrevised]
        exact roomy_single sampleEnv estimatedRecord (by decide +kernel)
      · rw [hrecords, hrevised]
        exact fun a ha b hb _ => (hdims a ha).trans (hdims b hb).symm
      · intro second hsecond
        obtain ⟨rows, _, hsecond⟩ := (bind_ok _ _ _).mp hsecond
        rw [pure_ok] at hsecond
        have hrecords' : second.records.rows = [estimatedRecord] := by
          rw [← hsecond, ← hrevised, ← hrecords]
          rfl
        refine ⟨?_, fun _ _ => trivial⟩
        intro record hr _
        rw [hrecords', List.mem_singleton] at hr
        rw [hr]
        decide +kernel
  exact ⟨hmeets, rollups_kept sampleEnv _ hmeets _ (List.prefix_refl _)⟩

end Sample

end AgenticOrg.Spend
