import AgenticOrg.Spend.Rollups

namespace AgenticOrg.Spend

open Tables OrderedDict Fallible

section Totals

-- The sum of the contributions, without any rounding.
def totals (records : List UsageRecord) : Delta :=
  ⟨fun field => (records.map (contributedSum · field)).sum,
    fun field => (records.map (contributedCount · field)).sum⟩

def keyOf (env : RollupEnv) (record : UsageRecord) : RollupKey :=
  (record.eventDate, dimsHash env (dimsOf env record))

def groupOf (env : RollupEnv) (key : RollupKey) (records : List UsageRecord) : List UsageRecord :=
  records.filter fun record => keyOf env record = key

theorem decimalQuantity_nonneg (units : ℕ) : 0 ≤ decimalQuantity units := by
  unfold decimalQuantity
  positivity

theorem decimalAmount_nonneg (units : ℕ) : 0 ≤ decimalAmount units := by
  unfold decimalAmount
  positivity

theorem optionAmount_nonneg (amount : Option ℕ) : 0 ≤ (amount.map decimalAmount).getD 0 := by
  cases amount with
  | none => exact le_refl 0
  | some units => exact decimalAmount_nonneg units

theorem contributedSum_nonneg (record : UsageRecord) (field : SumField) : 0 ≤ contributedSum record field := by
  cases field with
  | quantity => exact decimalQuantity_nonneg record.quantity
  | amount => exact optionAmount_nonneg record.amount
  | amountInr => exact optionAmount_nonneg record.amountInr
  | unconvertedAmount =>
      rw [contributedSum]
      split
      · exact optionAmount_nonneg record.amount
      · exact le_refl 0
  | unpricedQuantity =>
      rw [contributedSum]
      split
      · exact decimalQuantity_nonneg record.quantity
      · exact le_refl 0
  | overageQuantity => exact decimalQuantity_nonneg record.overageQuantity

theorem multiple_units (places units : ℕ) : Decimals.Multiple (-places) ((units : ℚ) / 10 ^ places) :=
  ⟨units, by rw [zpow_neg, zpow_natCast, Int.cast_natCast, div_eq_mul_inv]⟩

theorem multiple_amount (amount : Option ℕ) :
    Decimals.Multiple (-AMOUNT_PLACES) ((amount.map decimalAmount).getD 0) := by
  cases amount with
  | none => exact Decimals.Multiple.zero _
  | some units => exact multiple_units AMOUNT_PLACES units

theorem contributedSum_multiple (record : UsageRecord) (field : SumField) :
    Decimals.Multiple (-field.places) (contributedSum record field) := by
  cases field with
  | quantity => exact multiple_units QTY_PLACES record.quantity
  | amount => exact multiple_amount record.amount
  | amountInr => exact multiple_amount record.amountInr
  | unconvertedAmount =>
      rw [contributedSum]
      split
      · exact multiple_amount record.amount
      · exact Decimals.Multiple.zero _
  | unpricedQuantity =>
      rw [contributedSum]
      split
      · exact multiple_units QTY_PLACES record.quantity
      · exact Decimals.Multiple.zero _
  | overageQuantity => exact multiple_units QTY_PLACES record.overageQuantity

theorem contributedCount_nonneg (record : UsageRecord) (field : CountField) :
    0 ≤ contributedCount record field := by
  have hflag : ∀ value : Bool, 0 ≤ flag value := by decide
  cases field with
  | record => exact Int.zero_le_ofNat 1
  | call => exact hflag _
  | unpriced => exact hflag _
  | unconverted => exact hflag _
  | fxEstimated => exact hflag _
  | overage => exact hflag _
  | allocated => exact hflag _
  | estimated => exact hflag _

theorem totals_append (records more : List UsageRecord) :
    totals (records ++ more) = (totals more).addedTo (totals records) := by
  ext field <;> simp [totals, Delta.addedTo]

theorem totals_sum_nonneg (records : List UsageRecord) (field : SumField) : 0 ≤ (totals records).sums field := by
  refine List.sum_nonneg fun x hx => ?_
  obtain ⟨record, _, rfl⟩ := List.mem_map.mp hx
  exact contributedSum_nonneg record field

theorem totals_count_nonneg (records : List UsageRecord) (field : CountField) :
    0 ≤ (totals records).counts field := by
  refine List.sum_nonneg fun x hx => ?_
  obtain ⟨record, _, rfl⟩ := List.mem_map.mp hx
  exact contributedCount_nonneg record field

theorem totals_sum_le (some all : List UsageRecord) (h : some.Sublist all) (field : SumField) :
    (totals some).sums field ≤ (totals all).sums field := by
  refine List.Sublist.sum_le_sum (h.map _) fun x hx => ?_
  obtain ⟨record, _, rfl⟩ := List.mem_map.mp hx
  exact contributedSum_nonneg record field

theorem totals_record (records : List UsageRecord) : (totals records).counts .record = records.length := by
  simp [totals, contributedCount]

theorem eq_nil_of_totals (records : List UsageRecord) (h : (totals records).counts .record = 0) :
    records = [] := by
  rw [totals_record] at h
  exact List.eq_nil_of_length_eq_zero (by omega)

theorem mem_SUM_FIELDS (field : SumField) : field ∈ SUM_FIELDS := by
  cases field <;> decide

theorem mem_COUNT_FIELDS (field : CountField) : field ∈ COUNT_FIELDS := by
  cases field <;> decide

theorem inRange_iff (delta : Delta) :
    delta.inRange = true ↔ (∀ field, |delta.sums field| < 10 ^ (DEFAULT_DIGITS - field.places)) ∧
      ∀ field, -2 ^ 63 ≤ delta.counts field ∧ delta.counts field < 2 ^ 63 := by
  simp only [Delta.inRange, Bool.and_eq_true, List.all_eq_true, decide_eq_true_eq]
  constructor
  · rintro ⟨hs, hc⟩
    exact ⟨fun field => hs field (mem_SUM_FIELDS field), fun field => hc field (mem_COUNT_FIELDS field)⟩
  · rintro ⟨hs, hc⟩
    exact ⟨fun field _ => hs field, fun field _ => hc field⟩

theorem counted_iff (delta : Delta) : delta.counted = true ↔ ∀ field, 0 ≤ delta.counts field := by
  simp only [Delta.counted, List.all_eq_true, decide_eq_true_eq]
  exact ⟨fun h field => h field (mem_COUNT_FIELDS field), fun h field _ => h field⟩

theorem isZero_iff (delta : Delta) :
    delta.isZero = true ↔ (∀ field, delta.sums field = 0) ∧ ∀ field, delta.counts field = 0 := by
  simp only [Delta.isZero, Bool.and_eq_true, List.all_eq_true, decide_eq_true_eq]
  constructor
  · rintro ⟨hs, hc⟩
    exact ⟨fun field => hs field (mem_SUM_FIELDS field), fun field => hc field (mem_COUNT_FIELDS field)⟩
  · rintro ⟨hs, hc⟩
    exact ⟨fun field _ => hs field, fun field _ => hc field⟩

-- The bound of a sum's column is that of the context.
theorem column_bound (field : SumField) :
    (10 : ℚ) ^ (DEFAULT_DIGITS - field.places) = 10 ^ ((DEFAULT_DIGITS : ℤ) + -(field.places : ℤ)) := by
  cases field <;> norm_num [DEFAULT_DIGITS, SumField.places, QTY_PLACES, AMOUNT_PLACES]

end Totals

section Conditions

variable (env : RollupEnv)

-- The totals of one row fit the columns.
def Roomy (records : List UsageRecord) : Prop :=
  ∀ key, (totals (groupOf env key records)).inRange = true

-- Records of one row have the same dimensions.
def Agree (records : List UsageRecord) : Prop :=
  ∀ a ∈ records, ∀ b ∈ records, keyOf env a = keyOf env b → a.dims = b.dims

-- No sum of a row leaves the digits of the context.
def SumsFit (records : List UsageRecord) : Prop :=
  ∀ key field, (totals (groupOf env key records)).sums field < 10 ^ ((DEFAULT_DIGITS : ℤ) + -((field : SumField).places : ℤ))

theorem Roomy.sumsFit (records : List UsageRecord) (h : Roomy env records) : SumsFit env records := by
  intro key field
  have hr := ((inRange_iff _).mp (h key)).1 field
  rw [abs_of_nonneg (totals_sum_nonneg _ field), column_bound] at hr
  exact hr

theorem SumsFit.sublist (records all : List UsageRecord) (h : SumsFit env all) (hs : records.Sublist all) :
    SumsFit env records :=
  fun key field => lt_of_le_of_lt (totals_sum_le _ _ (hs.filter _) field) (h key field)

theorem groupOf_append (key : RollupKey) (records more : List UsageRecord) :
    groupOf env key (records ++ more) = groupOf env key records ++ groupOf env key more :=
  List.filter_append ..

theorem mem_groupOf (key : RollupKey) (records : List UsageRecord) (record : UsageRecord) :
    record ∈ groupOf env key records ↔ record ∈ records ∧ keyOf env record = key := by
  simp [groupOf]

end Conditions

section Entries

variable (env : RollupEnv)

def entriesOf (key : RollupKey) (entries : List DeltaEntry) : List DeltaEntry :=
  entries.filter fun entry => entry.key env = key

def entriesTotal (entries : List DeltaEntry) : Delta :=
  ⟨fun field => (entries.map (·.delta.sums field)).sum, fun field => (entries.map (·.delta.counts field)).sum⟩

-- Entries that can be added up in the default context.
structure Addable (entries : List DeltaEntry) : Prop where
  multiples : ∀ entry ∈ entries, ∀ field, Decimals.Multiple (-(field : SumField).places) (entry.delta.sums field)
  up : ∀ field, (entries.map fun entry => max (entry.delta.sums field) 0).sum <
    10 ^ ((DEFAULT_DIGITS : ℤ) + -((field : SumField).places : ℤ))
  down : ∀ field, (entries.map fun entry => max (-entry.delta.sums field) 0).sum <
    10 ^ ((DEFAULT_DIGITS : ℤ) + -((field : SumField).places : ℤ))

theorem foldl_accumulate (dims : Dims) (entries : List DeltaEntry) (hd : ∀ entry ∈ entries, entry.dims = dims)
    (start : Delta) :
    entries.foldl (fun found entry => some (accumulate found entry)) (some (dims, start)) =
      some (dims, entries.foldl (fun sum entry => sum.plus entry.delta) start) := by
  induction entries generalizing start with
  | nil => rfl
  | cons entry rest ih =>
      rw [List.foldl_cons, List.foldl_cons, accumulate, hd entry List.mem_cons_self]
      exact ih (fun other ho => hd other (List.mem_cons_of_mem _ ho)) (start.plus entry.delta)

theorem sums_foldl_plus (entries : List DeltaEntry) (start : Delta) (field : SumField) :
    (entries.foldl (fun sum entry => sum.plus entry.delta) start).sums field =
      (entries.map (·.delta.sums field)).foldl (Decimals.plus DEFAULT_DIGITS) (start.sums field) := by
  induction entries generalizing start with
  | nil => rfl
  | cons entry rest ih =>
      rw [List.foldl_cons, ih (start.plus entry.delta), List.map_cons, List.foldl_cons]
      rfl

theorem counts_foldl_plus (entries : List DeltaEntry) (start : Delta) (field : CountField) :
    (entries.foldl (fun sum entry => sum.plus entry.delta) start).counts field =
      start.counts field + (entries.map (·.delta.counts field)).sum := by
  induction entries generalizing start with
  | nil => simp
  | cons entry rest ih =>
      rw [List.foldl_cons, ih (start.plus entry.delta), List.map_cons, List.sum_cons, ← add_assoc]
      rfl

theorem foldl_plus_eq (entry : DeltaEntry) (rest : List DeltaEntry) (h : Addable (entry :: rest)) :
    rest.foldl (fun sum entry => sum.plus entry.delta) entry.delta = entriesTotal (entry :: rest) := by
  ext field
  · rw [sums_foldl_plus]
    have hup := h.up field
    have hdown := h.down field
    rw [List.map_cons, List.sum_cons] at hup hdown
    have hx := le_max_left (entry.delta.sums field) 0
    have hx' := le_max_left (-entry.delta.sums field) 0
    have hmap : ∀ f : ℚ → ℚ, ((rest.map (·.delta.sums field)).map f) =
        rest.map fun entry => f (entry.delta.sums field) := fun f => List.map_map ..
    rw [Decimals.foldl_plus_signed DEFAULT_DIGITS (-field.places) _ _ (h.multiples entry List.mem_cons_self field)
      ?_ ?_ ?_]
    · simp [entriesTotal]
    · intro x hxs
      obtain ⟨other, ho, rfl⟩ := List.mem_map.mp hxs
      exact h.multiples other (List.mem_cons_of_mem _ ho) field
    · rw [hmap]
      linarith
    · rw [hmap]
      linarith
  · rw [counts_foldl_plus]
    simp [entriesTotal]

theorem get?_foldl_addDelta (entries : List DeltaEntry) (key : RollupKey) :
    (entries.foldl (addDelta env) .empty).get? key =
      (entriesOf env key entries).foldl (fun found entry => some (accumulate found entry)) none := by
  have hgather : entries.foldl (addDelta env) .empty = Dict.gather (DeltaEntry.key env) accumulate entries := rfl
  have hfilter : (entries.filter fun entry => entry.key env == key) = entriesOf env key entries :=
    List.filter_congr fun entry _ => beq_eq_decide (entry.key env) key
  rw [hgather, Dict.get?_gather, hfilter]

-- What the entries of one key come to.
theorem get?_entries (entries : List DeltaEntry) (key : RollupKey) (dims : Dims)
    (hd : ∀ entry ∈ entriesOf env key entries, entry.dims = dims) (h : Addable (entriesOf env key entries))
    (hsome : entriesOf env key entries ≠ []) :
    (entries.foldl (addDelta env) .empty).get? key = some (dims, entriesTotal (entriesOf env key entries)) := by
  rw [get?_foldl_addDelta]
  cases hmine : entriesOf env key entries with
  | nil => exact absurd hmine hsome
  | cons entry rest =>
      rw [hmine] at hd h
      rw [List.foldl_cons, ← foldl_plus_eq entry rest h, accumulate, hd entry List.mem_cons_self]
      exact foldl_accumulate dims rest (fun other ho => hd other (List.mem_cons_of_mem _ ho)) entry.delta

end Entries

section Carrying

variable (env : RollupEnv)

theorem entriesOf_added (key : RollupKey) (records : List UsageRecord) :
    entriesOf env key (records.map (added env)) = (groupOf env key records).map (added env) := by
  rw [entriesOf, List.filter_map, groupOf]
  rfl

theorem entriesTotal_added (records : List UsageRecord) :
    entriesTotal (records.map (added env)) = totals records := by
  ext field
  · simp [entriesTotal, totals, added, contribution, Function.comp_def]
  · simp [entriesTotal, totals, added, contribution, Function.comp_def]

theorem addable_added (records : List UsageRecord)
    (h : ∀ field, (totals records).sums field < 10 ^ ((DEFAULT_DIGITS : ℤ) + -((field : SumField).places : ℤ))) :
    Addable (records.map (added env)) := by
  have hmax : ∀ field, ((records.map (added env)).map fun entry => max (entry.delta.sums field) 0).sum =
      (totals records).sums field := by
    intro field
    rw [List.map_map]
    refine congrArg List.sum (List.map_congr_left fun record _ => ?_)
    exact max_eq_left (contributedSum_nonneg record field)
  have hmin : ∀ field, ((records.map (added env)).map fun entry => max (-entry.delta.sums field) 0).sum = 0 := by
    intro field
    rw [List.map_map]
    refine List.sum_eq_zero fun x hx => ?_
    obtain ⟨record, _, rfl⟩ := List.mem_map.mp hx
    exact max_eq_right (neg_nonpos.mpr (contributedSum_nonneg record field))
  constructor
  · intro entry he field
    obtain ⟨record, _, rfl⟩ := List.mem_map.mp he
    exact contributedSum_multiple record field
  · intro field
    rw [hmax]
    exact h field
  · intro field
    rw [hmin]
    exact zpow_pos (by norm_num) _

theorem aggregate_eq (records : List UsageRecord) :
    aggregate env records = (records.map (added env)).foldl (addDelta env) .empty := by
  rw [List.foldl_map]
  rfl

theorem get?_aggregate_none (records : List UsageRecord) (key : RollupKey) (h : groupOf env key records = []) :
    (aggregate env records).get? key = none := by
  rw [aggregate_eq, get?_foldl_addDelta, entriesOf_added, h]
  rfl

theorem get?_aggregate_some (records : List UsageRecord) (hfit : SumsFit env records)
    (hagree : Agree env records) (record : UsageRecord) (hr : record ∈ records) :
    (aggregate env records).get? (keyOf env record) =
      some (dimsOf env record, totals (groupOf env (keyOf env record) records)) := by
  have hmine := entriesOf_added env (keyOf env record) records
  have hmem := (mem_groupOf env (keyOf env record) records record).mpr ⟨hr, rfl⟩
  rw [aggregate_eq, get?_entries env _ _ (dimsOf env record), hmine, entriesTotal_added]
  · intro entry he
    rw [hmine] at he
    obtain ⟨other, ho, rfl⟩ := List.mem_map.mp he
    obtain ⟨ho, hkey⟩ := (mem_groupOf env _ records other).mp ho
    exact congrArg (Dims.canon env.strip) (hagree other ho record hr hkey)
  · rw [hmine]
    exact addable_added env _ (hfit _)
  · rw [hmine]
    exact List.ne_nil_of_mem (List.mem_map_of_mem hmem)

-- Deltas that lead from the totals of some records to those of others.
structure Carries (deltas : Deltas) (before after : List UsageRecord) : Prop where
  absent : ∀ key, deltas.get? key = none → totals (groupOf env key after) = totals (groupOf env key before)
  present : ∀ key entry, deltas.get? key = some entry →
    totals (groupOf env key after) = entry.2.addedTo (totals (groupOf env key before)) ∧
      ∃ record ∈ before ++ after, keyOf env record = key ∧ dimsOf env record = entry.1

theorem carries_aggregate (records written : List UsageRecord) (hfit : SumsFit env (records ++ written))
    (hagree : Agree env (records ++ written)) :
    Carries env (aggregate env written) records (records ++ written) := by
  have hfitWritten := hfit.sublist env written _ (List.sublist_append_right records written)
  have hagreeWritten : Agree env written := fun a ha b hb =>
    hagree a (List.mem_append_right _ ha) b (List.mem_append_right _ hb)
  have hsome : ∀ record ∈ written, (aggregate env written).get? (keyOf env record) ≠ none := by
    intro record hr
    rw [get?_aggregate_some env written hfitWritten hagreeWritten record hr]
    exact Option.some_ne_none _
  constructor
  · intro key hnone
    have hgroup : groupOf env key written = [] := by
      rw [List.eq_nil_iff_forall_not_mem]
      intro record hmem
      obtain ⟨hr, rfl⟩ := (mem_groupOf env key written record).mp hmem
      exact hsome record hr hnone
    rw [groupOf_append, hgroup, List.append_nil]
  · intro key entry he
    cases hgroup : groupOf env key written with
    | nil =>
        rw [get?_aggregate_none env written key hgroup] at he
        cases he
    | cons record rest =>
        have hmem : record ∈ groupOf env key written := by
          rw [hgroup]
          exact List.mem_cons_self
        obtain ⟨hr, rfl⟩ := (mem_groupOf env key written record).mp hmem
        rw [get?_aggregate_some env written hfitWritten hagreeWritten record hr] at he
        rw [← Option.some.inj he, groupOf_append, totals_append]
        exact ⟨rfl, record, List.mem_append_right _ (List.mem_append_right _ hr), rfl, rfl⟩

def movedEntries (change : UsageRecord → Option UsageRecord) (record : UsageRecord) : List DeltaEntry :=
  [removed env record, added env (revised change record)]

def movesOf (change : UsageRecord → Option UsageRecord) (records : List UsageRecord) : List DeltaEntry :=
  (records.filter fun record => (change record).isSome).flatMap (movedEntries env change)

theorem foldl_moveRevised (change : UsageRecord → Option UsageRecord) (records : List UsageRecord) :
    records.foldl (moveRevised env change) .empty = (movesOf env change records).foldl (addDelta env) .empty := by
  rw [movesOf, List.foldl_flatMap, List.foldl_filter]
  rfl

theorem removed_sums (record : UsageRecord) (field : SumField)
    (h : contributedSum record field < 10 ^ ((DEFAULT_DIGITS : ℤ) + -(field.places : ℤ))) :
    (removed env record).delta.sums field = -contributedSum record field := by
  obtain ⟨n, hn⟩ := contributedSum_multiple record field
  refine Decimals.rounded_of_multiple DEFAULT_DIGITS (-field.places) _ ⟨-n, ?_⟩ ?_
  · have hneg : -contributedSum record field = ((-n : ℤ) : ℚ) * 10 ^ (-field.places : ℤ) := by
      rw [hn]
      push_cast
      ring
    exact hneg
  · rw [abs_neg, contribution, abs_of_nonneg (contributedSum_nonneg record field)]
    exact h

theorem sum_entriesOf_moved {α : Type} [AddCommMonoid α] (g : DeltaEntry → α)
    (change : UsageRecord → Option UsageRecord) (key : RollupKey) (record : UsageRecord) (rest : List UsageRecord) :
    ((entriesOf env key ((record :: rest).flatMap (movedEntries env change))).map g).sum =
      (if keyOf env record = key then g (removed env record) else 0) +
        ((if keyOf env (revised change record) = key then g (added env (revised change record)) else 0) +
          ((entriesOf env key (rest.flatMap (movedEntries env change))).map g).sum) := by
  have hkeys : (removed env record).key env = keyOf env record ∧
      (added env (revised change record)).key env = keyOf env (revised change record) := ⟨rfl, rfl⟩
  rw [List.flatMap_cons, entriesOf, List.filter_append, List.map_append, List.sum_append, ← add_assoc]
  congr 1
  simp only [movedEntries, List.filter_cons, List.filter_nil, hkeys, decide_eq_true_eq]
  split <;> split <;> simp

theorem sums_groupOf_cons (key : RollupKey) (record : UsageRecord) (rest : List UsageRecord) (field : SumField) :
    (totals (groupOf env key (record :: rest))).sums field =
      (if keyOf env record = key then contributedSum record field else 0) +
        (totals (groupOf env key rest)).sums field := by
  rw [groupOf, List.filter_cons, ← groupOf]
  by_cases hk : keyOf env record = key
  · simp [hk, totals]
  · simp [hk]

theorem counts_groupOf_cons (key : RollupKey) (record : UsageRecord) (rest : List UsageRecord)
    (field : CountField) :
    (totals (groupOf env key (record :: rest))).counts field =
      (if keyOf env record = key then contributedCount record field else 0) +
        (totals (groupOf env key rest)).counts field := by
  rw [groupOf, List.filter_cons, ← groupOf]
  by_cases hk : keyOf env record = key
  · simp [hk, totals]
  · simp [hk]

-- What the moves of some records add to a key and take from it.
theorem movedEntries_sums (change : UsageRecord → Option UsageRecord) (key : RollupKey) (field : SumField)
    (records : List UsageRecord)
    (h : ∀ record ∈ records, contributedSum record field < 10 ^ ((DEFAULT_DIGITS : ℤ) + -(field.places : ℤ))) :
    ((entriesOf env key (records.flatMap (movedEntries env change))).map fun entry =>
        max (entry.delta.sums field) 0).sum = (totals (groupOf env key (records.map (revised change)))).sums field ∧
      ((entriesOf env key (records.flatMap (movedEntries env change))).map fun entry =>
        max (-entry.delta.sums field) 0).sum = (totals (groupOf env key records)).sums field ∧
      ((entriesOf env key (records.flatMap (movedEntries env change))).map fun entry =>
        entry.delta.sums field).sum = (totals (groupOf env key (records.map (revised change)))).sums field -
          (totals (groupOf env key records)).sums field := by
  induction records with
  | nil => exact ⟨rfl, rfl, by simp [entriesOf, groupOf, totals]⟩
  | cons record rest ih =>
      obtain ⟨ihup, ihdown, ihsum⟩ := ih fun other ho => h other (List.mem_cons_of_mem _ ho)
      have hout := removed_sums env record field (h record List.mem_cons_self)
      have hold := contributedSum_nonneg record field
      have hnew := contributedSum_nonneg (revised change record) field
      have hin : (added env (revised change record)).delta.sums field =
          contributedSum (revised change record) field := rfl
      rw [List.map_cons, sums_groupOf_cons, sums_groupOf_cons, sum_entriesOf_moved, sum_entriesOf_moved,
        sum_entriesOf_moved, ihup, ihdown, ihsum, hout, hin, neg_neg, max_eq_right (neg_nonpos.mpr hold),
        max_eq_left hnew, max_eq_left hold, max_eq_right (neg_nonpos.mpr hnew)]
      refine ⟨?_, ?_, ?_⟩
      · simp
      · simp
      · split <;> split <;> ring

theorem movedEntries_counts (change : UsageRecord → Option UsageRecord) (key : RollupKey) (field : CountField)
    (records : List UsageRecord) :
    ((entriesOf env key (records.flatMap (movedEntries env change))).map fun entry =>
        entry.delta.counts field).sum = (totals (groupOf env key (records.map (revised change)))).counts field -
          (totals (groupOf env key records)).counts field := by
  induction records with
  | nil => rfl
  | cons record rest ih =>
      have hout : (removed env record).delta.counts field = -contributedCount record field := rfl
      have hin : (added env (revised change record)).delta.counts field =
          contributedCount (revised change record) field := rfl
      rw [List.map_cons, counts_groupOf_cons, counts_groupOf_cons, sum_entriesOf_moved, ih, hout, hin]
      split <;> split <;> ring

-- The records that are not revised add to both sides alike.
theorem totals_revised (change : UsageRecord → Option UsageRecord) (key : RollupKey) (records : List UsageRecord) :
    (∀ field, (totals (groupOf env key (records.map (revised change)))).sums field -
        (totals (groupOf env key records)).sums field =
      (totals (groupOf env key ((records.filter fun record => (change record).isSome).map (revised change)))).sums
          field - (totals (groupOf env key (records.filter fun record => (change record).isSome))).sums field) ∧
    ∀ field, (totals (groupOf env key (records.map (revised change)))).counts field -
        (totals (groupOf env key records)).counts field =
      (totals (groupOf env key ((records.filter fun record => (change record).isSome).map (revised change)))).counts
          field - (totals (groupOf env key (records.filter fun record => (change record).isSome))).counts field := by
  induction records with
  | nil => exact ⟨fun _ => rfl, fun _ => rfl⟩
  | cons record rest ih =>
      obtain ⟨ihsums, ihcounts⟩ := ih
      rw [List.filter_cons]
      by_cases hc : (change record).isSome = true
      · rw [if_pos hc]
        refine ⟨fun field => ?_, fun field => ?_⟩
        · rw [List.map_cons, List.map_cons, sums_groupOf_cons, sums_groupOf_cons, sums_groupOf_cons,
            sums_groupOf_cons]
          linarith [ihsums field]
        · rw [List.map_cons, List.map_cons, counts_groupOf_cons, counts_groupOf_cons, counts_groupOf_cons,
            counts_groupOf_cons]
          linarith [ihcounts field]
      · have hsame : revised change record = record := by
          rw [revised, Option.not_isSome_iff_eq_none.mp hc]
        rw [if_neg hc, List.map_cons, hsame]
        refine ⟨fun field => ?_, fun field => ?_⟩
        · rw [sums_groupOf_cons, sums_groupOf_cons]
          linarith [ihsums field]
        · rw [counts_groupOf_cons, counts_groupOf_cons]
          linarith [ihcounts field]

theorem SumsFit.contributed (records : List UsageRecord) (h : SumsFit env records) (record : UsageRecord)
    (hr : record ∈ records) (field : SumField) :
    contributedSum record field < 10 ^ ((DEFAULT_DIGITS : ℤ) + -(field.places : ℤ)) := by
  have hone := h.sublist env [record] records (List.singleton_sublist.mpr hr) (keyOf env record) field
  rw [sums_groupOf_cons, if_pos rfl] at hone
  simpa [groupOf, totals] using hone

theorem mem_movedEntries (change : UsageRecord → Option UsageRecord) (key : RollupKey)
    (records : List UsageRecord) (entry : DeltaEntry)
    (he : entry ∈ entriesOf env key (movesOf env change records)) :
    ∃ record ∈ records, (entry = removed env record ∧ keyOf env record = key) ∨
      (entry = added env (revised change record) ∧ keyOf env (revised change record) = key) := by
  obtain ⟨he, hkey⟩ := List.mem_filter.mp he
  obtain ⟨record, hr, he⟩ := List.mem_flatMap.mp he
  refine ⟨record, List.mem_of_mem_filter hr, ?_⟩
  simp only [movedEntries, List.mem_cons, List.not_mem_nil, or_false] at he
  rcases he with rfl | rfl
  · exact .inl ⟨rfl, of_decide_eq_true hkey⟩
  · exact .inr ⟨rfl, of_decide_eq_true hkey⟩

theorem addable_moved (change : UsageRecord → Option UsageRecord) (records : List UsageRecord)
    (hfit : SumsFit env records) (hfit' : SumsFit env (records.map (revised change))) (key : RollupKey) :
    Addable (entriesOf env key (movesOf env change records)) := by
  have hsub : (records.filter fun record => (change record).isSome).Sublist records := List.filter_sublist
  have hsums := fun field => movedEntries_sums env change key field
    (records.filter fun record => (change record).isSome)
    fun record hr => hfit.contributed env records record (List.mem_of_mem_filter hr) field
  constructor
  · intro entry he field
    obtain ⟨record, hr, hcase⟩ := mem_movedEntries env change key records entry he
    rcases hcase with ⟨rfl, _⟩ | ⟨rfl, _⟩
    · obtain ⟨n, hn⟩ := contributedSum_multiple record field
      rw [removed_sums env record field (hfit.contributed env records record hr field), hn]
      exact ⟨-n, by push_cast; ring⟩
    · exact contributedSum_multiple (revised change record) field
  · intro field
    rw [movesOf, (hsums field).1]
    exact hfit'.sublist env _ _ (hsub.map (revised change)) key field
  · intro field
    rw [movesOf, (hsums field).2.1]
    exact hfit.sublist env _ _ hsub key field

theorem totals_moves (change : UsageRecord → Option UsageRecord) (records : List UsageRecord)
    (hfit : SumsFit env records) (key : RollupKey) :
    totals (groupOf env key (records.map (revised change))) =
      (entriesTotal (entriesOf env key (movesOf env change records))).addedTo
        (totals (groupOf env key records)) := by
  obtain ⟨hs, hc⟩ := totals_revised env change key records
  ext field
  · have hmoved := (movedEntries_sums env change key field
      (records.filter fun record => (change record).isSome)
      fun record hr => hfit.contributed env records record (List.mem_of_mem_filter hr) field).2.2
    have hd := hs field
    simp only [Delta.addedTo, entriesTotal, movesOf]
    linarith
  · have hmoved := movedEntries_counts env change key field
      (records.filter fun record => (change record).isSome)
    have hd := hc field
    simp only [Delta.addedTo, entriesTotal, movesOf]
    linarith

theorem record_of_moves (change : UsageRecord → Option UsageRecord) (records : List UsageRecord)
    (key : RollupKey) (entry : DeltaEntry) (he : entry ∈ entriesOf env key (movesOf env change records)) :
    ∃ record ∈ records ++ records.map (revised change),
      keyOf env record = key ∧ dimsOf env record = entry.dims := by
  obtain ⟨record, hr, hcase⟩ := mem_movedEntries env change key records entry he
  rcases hcase with ⟨rfl, hkey⟩ | ⟨rfl, hkey⟩
  · exact ⟨record, List.mem_append_left _ hr, hkey, rfl⟩
  · exact ⟨_, List.mem_append_right _ (List.mem_map_of_mem hr), hkey, rfl⟩

theorem get?_moves (change : UsageRecord → Option UsageRecord) (records : List UsageRecord)
    (hfit : SumsFit env records) (hfit' : SumsFit env (records.map (revised change)))
    (hagree : Agree env (records ++ records.map (revised change))) (key : RollupKey) (entry : DeltaEntry)
    (he : entry ∈ entriesOf env key (movesOf env change records)) :
    ((movesOf env change records).foldl (addDelta env) .empty).get? key =
      some (entry.dims, entriesTotal (entriesOf env key (movesOf env change records))) := by
  refine get?_entries env _ key entry.dims ?_ (addable_moved env change records hfit hfit' key)
    (List.ne_nil_of_mem he)
  intro other ho
  obtain ⟨a, ha, hka, hda⟩ := record_of_moves env change records key other ho
  obtain ⟨b, hb, hkb, hdb⟩ := record_of_moves env change records key entry he
  rw [← hda, ← hdb]
  exact congrArg (Dims.canon env.strip) (hagree a ha b hb (hka.trans hkb.symm))

theorem carries_moved (change : UsageRecord → Option UsageRecord) (records : List UsageRecord)
    (hfit : SumsFit env records) (hfit' : SumsFit env (records.map (revised change)))
    (hagree : Agree env (records ++ records.map (revised change))) :
    Carries env (records.foldl (moveRevised env change) .empty) records (records.map (revised change)) := by
  rw [foldl_moveRevised]
  have hget := get?_moves env change records hfit hfit' hagree
  constructor
  · intro key hnone
    have hnil : entriesOf env key (movesOf env change records) = [] := by
      rw [List.eq_nil_iff_forall_not_mem]
      intro entry he
      rw [hget key entry he] at hnone
      cases hnone
    rw [totals_moves env change records hfit key, hnil]
    ext field
    · simp [Delta.addedTo, entriesTotal]
    · simp [Delta.addedTo, entriesTotal]
  · intro key found hfound
    cases hmine : entriesOf env key (movesOf env change records) with
    | nil =>
        rw [get?_foldl_addDelta, hmine] at hfound
        cases hfound
    | cons entry rest =>
        have he : entry ∈ entriesOf env key (movesOf env change records) := by
          rw [hmine]
          exact List.mem_cons_self
        rw [hget key entry he] at hfound
        rw [← Option.some.inj hfound]
        exact ⟨totals_moves env change records hfit key, record_of_moves env change records key entry he⟩

end Carrying

end AgenticOrg.Spend
