import AgenticOrg.Lib.Lists
import AgenticOrg.Spend.Reconcile.Theorems

namespace AgenticOrg.Spend

open OrderedDict

section Specificity

-- A model and a unit, a model, a unit, neither; in each class a day before a month.
def ItemKey.specificity (key : ItemKey) : ℕ :=
  (if key.model ≠ "" then (if key.unit.isSome then 0 else 2) else if key.unit.isSome then 4 else 6) +
    if key.day.isSome then 0 else 1

-- The most specific of the keys that fit the group.
def Assigned (keys : List ItemKey) (group : PricedGroup) (key : ItemKey) : Prop :=
  key ∈ keys ∧ fits key group = true ∧
    ∀ other ∈ keys, fits other group = true → other ≠ key → key.specificity < other.specificity

instance (keys : List ItemKey) (group : PricedGroup) (key : ItemKey) : Decidable (Assigned keys group key) :=
  inferInstanceAs (Decidable (_ ∧ _ ∧ _))

theorem fits_iff (key : ItemKey) (group : PricedGroup) :
    fits key group = true ↔ some group.usageType = key.usageType ∧ (key.model = "" ∨ group.model = key.model) ∧
      (key.unit = none ∨ some group.canonicalUnit = key.unit) ∧ (key.day = none ∨ some group.billingDate = key.day) := by
  simp [fits, and_assoc]

theorem specificity_iff (a b : ItemKey) :
    a.specificity = b.specificity ↔
      (a.model ≠ "" ↔ b.model ≠ "") ∧ (a.unit.isSome ↔ b.unit.isSome) ∧ (a.day.isSome ↔ b.day.isSome) := by
  unfold ItemKey.specificity
  by_cases hm : a.model = "" <;> by_cases hm' : b.model = "" <;> cases a.unit <;> cases b.unit <;> cases a.day <;>
    cases b.day <;> simp [hm, hm']

-- Two keys of one class that fit a group are the same key.
theorem eq_of_fits (a b : ItemKey) (group : PricedGroup) (hs : a.specificity = b.specificity)
    (ha : fits a group = true) (hb : fits b group = true) : a = b := by
  rw [fits_iff] at ha hb
  rw [specificity_iff] at hs
  obtain ⟨hmodel, hunit, hday⟩ := hs
  obtain ⟨hausage, hamodel, haunit, haday⟩ := ha
  obtain ⟨hbusage, hbmodel, hbunit, hbday⟩ := hb
  have hopen : ∀ {β : Type} (x y : Option β) (z : β), (x.isSome ↔ y.isSome) → (x = none ∨ some z = x) →
      (y = none ∨ some z = y) → x = y := by
    intro β x y z hxy hx hy
    rcases hx with rfl | rfl
    · rcases hy with rfl | rfl
      · rfl
      · simp at hxy
    · rcases hy with rfl | rfl
      · simp at hxy
      · rfl
  cases a with
  | mk usage model unit day =>
      cases b with
      | mk usage' model' unit' day' =>
          dsimp only at *
          have hmodels : model = model' := by
            rcases hamodel with rfl | rfl
            · rcases hbmodel with rfl | rfl
              · rfl
              · simpa using hmodel
            · rcases hbmodel with rfl | rfl
              · simpa using hmodel
              · rfl
          rw [ItemKey.mk.injEq]
          exact ⟨hausage.symm.trans hbusage, hmodels, hopen unit unit' _ hunit haunit hbunit,
            hopen day day' _ hday haday hbday⟩

end Specificity

section Order

abbrev Entry := ItemKey × LineEntry

def Entry.firstInvoice (entry : Entry) : String := (entry.2.lines.head?.map (·.invoiceId)).getD ""

def Entry.firstNo (entry : Entry) : Int := (entry.2.lines.head?.map (·.lineNo)).getD 0

def byFirstLine : Entry → Entry → Ordering :=
  compareLex (compareOn Entry.firstInvoice) (compareOn Entry.firstNo)

instance : Std.TransCmp byFirstLine :=
  inferInstanceAs (Std.TransCmp (compareLex (compareOn Entry.firstInvoice) (compareOn Entry.firstNo)))

-- An entry has a first line, which its order goes by in the end.
theorem firstLineOrder_eq (a b : Entry) (ha : a.2.lines ≠ []) (hb : b.2.lines ≠ []) :
    firstLineOrder a.2 b.2 = byFirstLine a b := by
  unfold firstLineOrder byFirstLine compareLex compareOn Entry.firstInvoice Entry.firstNo
  cases hla : a.2.lines with
  | nil => exact absurd hla ha
  | cons first rest =>
      cases hlb : b.2.lines with
      | nil => exact absurd hlb hb
      | cons other more => rfl

theorem isLE_of_then (first second : Ordering) (h : (first.then second).isLE = true) : first.isLE = true := by
  cases first with
  | lt => rfl
  | eq => rfl
  | gt => exact h

theorem total_isLE (cmp : Entry → Entry → Ordering) [Std.OrientedCmp cmp] (a b : Entry) :
    ((cmp a b).isLE || (cmp b a).isLE) = true := by
  have hswap : cmp b a = (cmp a b).swap := Std.OrientedCmp.eq_swap
  rw [hswap]
  cases cmp a b <;> rfl

-- Entries in the order of a comparison that agrees with a lawful one on them.
theorem pairwise_sorted (order lawful : Entry → Entry → Ordering) [Std.TransCmp lawful]
    (heq : ∀ a b : Entry, a.2.lines ≠ [] → b.2.lines ≠ [] → order a b = lawful a b) (entries : List Entry)
    (h : ∀ entry ∈ entries, entry.2.lines ≠ []) :
    (entries.mergeSort fun a b => (order a b).isLE).Pairwise fun a b => (order a b).isLE = true := by
  refine Lists.pairwise_mergeSort_of _ (fun entry : Entry => entry.2.lines ≠ []) ?_ ?_ entries h
  · intro a b c ha hb hc hab hbc
    rw [heq a b ha hb] at hab
    rw [heq b c hb hc] at hbc
    rw [heq a c ha hc]
    exact Std.TransCmp.isLE_trans hab hbc
  · intro a b ha hb
    rw [heq a b ha hb, heq b a hb ha]
    exact total_isLE lawful a b

theorem exact_ascending (entries : List Entry) (h : ∀ entry ∈ entries, entry.2.lines ≠ []) :
    (entries.mergeSort fun a b => (exactOrder a b).isLE).Pairwise fun a b => (exactOrder a b).isLE = true := by
  refine pairwise_sorted exactOrder (compareLex (compareOn fun entry => entry.1.day.isNone) byFirstLine) ?_ entries h
  intro a b ha hb
  rw [exactOrder, firstLineOrder_eq a b ha hb]
  rfl

theorem loose_ascending (entries : List Entry) (h : ∀ entry ∈ entries, entry.2.lines ≠ []) :
    (entries.mergeSort fun a b => (looseOrder a b).isLE).Pairwise fun a b => (looseOrder a b).isLE = true := by
  refine pairwise_sorted looseOrder (compareLex (compareOn fun entry => (entry.1.model = "" : Bool))
    (compareLex (compareOn fun entry => entry.1.unit.isNone)
      (compareLex (compareOn fun entry => entry.1.day.isNone) byFirstLine))) ?_ entries h
  intro a b ha hb
  rw [looseOrder, firstLineOrder_eq a b ha hb]
  rfl

theorem specificity_exact (key : ItemKey) (h : key.isExact = true) : key.specificity ≤ 1 := by
  simp only [ItemKey.isExact, Bool.and_eq_true, decide_eq_true_eq] at h
  unfold ItemKey.specificity
  rw [if_pos h.1, if_pos h.2]
  split_ifs <;> omega

theorem specificity_loose (key : ItemKey) (h : key.isExact = false) : 2 ≤ key.specificity := by
  unfold ItemKey.specificity
  by_cases hmodel : key.model = ""
  · rw [if_neg (not_not.mpr hmodel)]
    split_ifs <;> omega
  · have hunit : key.unit.isSome = false := by simpa [ItemKey.isExact, hmodel] using h
    rw [if_pos hmodel, hunit]
    simp

theorem specificity_le_of_exact (a b : Entry) (ha : a.1.isExact = true) (hb : b.1.isExact = true)
    (h : (exactOrder a b).isLE = true) : a.1.specificity ≤ b.1.specificity := by
  have hday := isLE_of_then _ _ h
  simp only [ItemKey.isExact, Bool.and_eq_true, decide_eq_true_eq] at ha hb
  unfold ItemKey.specificity
  rw [if_pos ha.1, if_pos ha.2, if_pos hb.1, if_pos hb.2]
  cases hda : a.1.day with
  | some _ => simp
  | none =>
      cases hdb : b.1.day with
      | none => simp
      | some _ =>
          rw [hda, hdb] at hday
          have hfalse : (compare true false).isLE = true := hday
          exact absurd hfalse (by decide)

theorem specificity_le_of_loose (a b : Entry) (ha : a.1.isExact = false)
    (h : (looseOrder a b).isLE = true) : a.1.specificity ≤ b.1.specificity := by
  unfold looseOrder at h
  simp only [ItemKey.isExact, Bool.and_eq_false_iff, decide_eq_false_iff_not, not_not] at ha
  unfold ItemKey.specificity
  by_cases hma : a.1.model = "" <;> by_cases hmb : b.1.model = "" <;> cases hua : a.1.unit <;>
    cases hub : b.1.unit <;> cases hda : a.1.day <;> cases hdb : b.1.day <;>
    simp_all [compare, Ordering.then]

-- Keys come in the order of their classes.
theorem orderedEntries_ascending (merged : List Entry) (h : ∀ entry ∈ merged, entry.2.lines ≠ []) :
    (orderedEntries merged).Pairwise fun a b => a.1.specificity ≤ b.1.specificity := by
  unfold orderedEntries
  rw [List.pairwise_append]
  have hexact : ∀ entry ∈ (merged.filter (·.1.isExact)).mergeSort fun a b => (exactOrder a b).isLE,
      entry.1.isExact = true := by
    intro entry he
    exact (List.mem_filter.mp ((List.mergeSort_perm _ _).mem_iff.mp he)).2
  have hloose : ∀ entry ∈ (merged.filter fun entry => !entry.1.isExact).mergeSort fun a b => (looseOrder a b).isLE,
      entry.1.isExact = false := by
    intro entry he
    have hf := (List.mem_filter.mp ((List.mergeSort_perm _ _).mem_iff.mp he)).2
    simpa using hf
  refine ⟨?_, ?_, ?_⟩
  · refine (exact_ascending _ fun entry he => h entry (List.mem_filter.mp he).1).imp_of_mem ?_
    intro a b ha hb hle
    exact specificity_le_of_exact a b (hexact a ha) (hexact b hb) hle
  · refine (loose_ascending _ fun entry he => h entry (List.mem_filter.mp he).1).imp_of_mem ?_
    intro a b ha hb hle
    exact specificity_le_of_loose a b (hloose a ha) hle
  · intro a ha b hb
    have hfirst : a.1.specificity ≤ 1 := specificity_exact a.1 (hexact a ha)
    have hsecond : 2 ≤ b.1.specificity := specificity_loose b.1 (hloose b hb)
    omega

end Order

section Passes

-- An entry takes the groups that fit it and no entry before it.
theorem takeGroups_item (entries : List Entry) (remaining : List PricedGroup) (item : Item)
    (h : item ∈ (takeGroups entries remaining).1) :
    ∃ before entry after, entries = before ++ entry :: after ∧
      item = usageItem entry.1 (some entry.2)
        (remaining.filter fun group => fits entry.1 group && before.all fun other => !fits other.1 group) := by
  induction entries generalizing remaining with
  | nil => exact absurd h List.not_mem_nil
  | cons entry rest ih =>
      rcases List.mem_cons.mp h with rfl | h
      · refine ⟨[], entry, rest, rfl, ?_⟩
        simp only [List.all_nil, Bool.and_true]
      · obtain ⟨before, found, after, rfl, rfl⟩ := ih _ h
        refine ⟨entry :: before, found, after, rfl, ?_⟩
        rw [List.filter_filter]
        congr 1
        refine List.filter_congr fun group _ => ?_
        rw [List.all_cons]
        cases fits entry.1 group <;> simp

theorem takeGroups_left (entries : List Entry) (remaining : List PricedGroup) :
    (takeGroups entries remaining).2 = remaining.filter fun group => entries.all fun entry => !fits entry.1 group := by
  induction entries generalizing remaining with
  | nil =>
      simp [takeGroups]
  | cons entry rest ih =>
      refine (ih _).trans ?_
      rw [List.filter_filter]
      refine List.filter_congr fun group _ => ?_
      rw [List.all_cons, Bool.and_comm]

-- Nothing before a key fits exactly when the key is the most specific one that fits.
theorem first_iff_assigned (before after : List Entry) (entry : Entry) (group : PricedGroup)
    (horder : (before ++ entry :: after).Pairwise fun a b => a.1.specificity ≤ b.1.specificity)
    (hnodup : ((before ++ entry :: after).map Prod.fst).Nodup) :
    (fits entry.1 group && before.all fun other => !fits other.1 group) = true ↔
      Assigned ((before ++ entry :: after).map Prod.fst) group entry.1 := by
  rw [List.pairwise_append, List.pairwise_cons] at horder
  obtain ⟨_, ⟨hafter, _⟩, hbefore⟩ := horder
  rw [List.map_append, List.map_cons, List.nodup_append] at hnodup
  obtain ⟨_, _, hapart⟩ := hnodup
  rw [Bool.and_eq_true, List.all_eq_true]
  constructor
  · rintro ⟨hfits, hnone⟩
    refine ⟨by simp, hfits, ?_⟩
    intro other hm ho hne
    obtain ⟨found, hfound, rfl⟩ := List.mem_map.mp hm
    rcases List.mem_append.mp hfound with hb | hb
    · have hfalse := hnone found hb
      rw [ho] at hfalse
      exact absurd hfalse (by decide)
    · rcases List.mem_cons.mp hb with rfl | ha
      · exact absurd rfl hne
      · refine lt_of_le_of_ne (hafter found ha) fun hs => hne ?_
        exact (eq_of_fits entry.1 found.1 group hs hfits ho).symm
  · rintro ⟨_, hfits, hleast⟩
    refine ⟨hfits, fun other hb => ?_⟩
    rw [Bool.not_eq_true', ← Bool.not_eq_true]
    intro ho
    have hne : other.1 ≠ entry.1 :=
      hapart other.1 (List.mem_map.mpr ⟨other, hb, rfl⟩) entry.1 List.mem_cons_self
    have hlt := hleast other.1 (List.mem_map.mpr ⟨other, List.mem_append_left _ hb, rfl⟩) ho hne
    have hle := hbefore other hb entry List.mem_cons_self
    omega

theorem assigned_congr (keys others : List ItemKey) (h : ∀ key, key ∈ keys ↔ key ∈ others) (group : PricedGroup)
    (key : ItemKey) : Assigned keys group key ↔ Assigned others group key := by
  unfold Assigned
  rw [h key]
  constructor
  · rintro ⟨hm, hf, hleast⟩
    exact ⟨hm, hf, fun other ho => hleast other ((h other).mpr ho)⟩
  · rintro ⟨hm, hf, hleast⟩
    exact ⟨hm, hf, fun other ho => hleast other ((h other).mp ho)⟩

theorem exists_assigned (keys : List ItemKey) (group : PricedGroup) (key : ItemKey) (hm : key ∈ keys)
    (hf : fits key group = true) : ∃ found, Assigned keys group found := by
  -- a fitting key of least rank
  obtain ⟨least, hleast, hmin⟩ := WellFounded.has_min (measure ItemKey.specificity).wf
    { found : ItemKey | found ∈ keys ∧ fits found group = true } ⟨key, hm, hf⟩
  refine ⟨least, hleast.1, hleast.2, fun other ho hfo hne => ?_⟩
  have hle : least.specificity ≤ other.specificity := not_lt.mp (hmin other ⟨ho, hfo⟩)
  refine lt_of_le_of_ne hle fun hs => hne ?_
  exact eq_of_fits other least group hs.symm hfo hleast.2

end Passes

section Matching

variable (names : Naming) (provider : String) (daysInMonth : Nat)

def lineKeys (lines : List InvoiceLine) : List ItemKey :=
  (usageLines lines).map fun line => (lineKey names provider daysInMonth line).1

theorem mergedLines_listed (lines : List InvoiceLine) :
    ∀ entry ∈ (mergedLines names provider daysInMonth lines).entries, entry.2.lines ≠ [] := by
  refine Dict.gather_forall _ _ _ (fun entry : LineEntry => entry.lines ≠ []) ?_
  intro old line _
  simp [addLine]

theorem mem_mergedKeys (lines : List InvoiceLine) (key : ItemKey) :
    key ∈ (orderedEntries (mergedLines names provider daysInMonth lines).entries).map Prod.fst ↔
      key ∈ lineKeys names provider daysInMonth lines := by
  rw [((orderedEntries_perm _).map Prod.fst).mem_iff]
  constructor
  · intro h
    obtain ⟨line, hline, rfl⟩ := Dict.mem_keys_gather _ _ _ key h
    exact List.mem_map.mpr ⟨line, (List.mergeSort_perm _ _).mem_iff.mp hline, rfl⟩
  · intro h
    obtain ⟨line, hline, rfl⟩ := List.mem_map.mp h
    have hget := Dict.get?_gather (fun line => (lineKey names provider daysInMonth line).1)
      (addLine names provider daysInMonth)
      ((usageLines lines).mergeSort fun a b => (lineOrder a b).isLE) (lineKey names provider daysInMonth line).1
    have hmem : line ∈ (((usageLines lines).mergeSort fun a b => (lineOrder a b).isLE).filter fun other =>
        (lineKey names provider daysInMonth other).1 == (lineKey names provider daysInMonth line).1) :=
      List.mem_filter.mpr ⟨(List.mergeSort_perm _ _).mem_iff.mpr hline, beq_self_eq_true _⟩
    rw [← List.dropLast_concat_getLast (List.ne_nil_of_mem hmem), List.foldl_append] at hget
    exact List.mem_map.mpr ⟨_, Dict.mem_of_get? _ _ _ hget, rfl⟩

theorem nodup_mergedKeys (lines : List InvoiceLine) :
    ((orderedEntries (mergedLines names provider daysInMonth lines).entries).map Prod.fst).Nodup := by
  rw [((orderedEntries_perm _).map Prod.fst).nodup_iff]
  refine (Dict.keys_distinct _).imp ?_
  intro a b h he
  rw [he, beq_self_eq_true] at h
  cases h

-- Each group goes to the most specific of the lines' keys that fit it, and is left over when none does.
structure MostSpecific (keys : List ItemKey) (priced : List PricedGroup) (items : List Item) : Prop where
  lines : ∀ item ∈ items, item.isUsage = true → item.invoiceLineIds ≠ [] →
    item.key ∈ keys ∧ item.members = priced.filter fun group => decide (Assigned keys group item.key)
  each : ∀ key ∈ keys, ∃ item ∈ items, item.isUsage = true ∧ item.invoiceLineIds ≠ [] ∧ item.key = key
  left : ∀ item ∈ items, item.isUsage = true → item.invoiceLineIds = [] →
    ∀ group ∈ item.members, ∀ key ∈ keys, fits key group = false
  taken : ∀ group ∈ priced, ∀ key ∈ keys, fits key group = true → ∃ found, Assigned keys group found

variable {names provider daysInMonth}

theorem taken_item (lines : List InvoiceLine) (priced : List PricedGroup) (item : Item)
    (h : item ∈ (takeGroups (orderedEntries (mergedLines names provider daysInMonth lines).entries) priced).1) :
    item.isUsage = true ∧ item.invoiceLineIds ≠ [] ∧ item.key ∈ lineKeys names provider daysInMonth lines ∧
      item.members = priced.filter fun group =>
        decide (Assigned (lineKeys names provider daysInMonth lines) group item.key) := by
  obtain ⟨before, entry, after, hsplit, rfl⟩ := takeGroups_item _ priced item h
  have hperm := orderedEntries_perm (mergedLines names provider daysInMonth lines).entries
  have hlisted := mergedLines_listed names provider daysInMonth lines
  have horder := orderedEntries_ascending _ hlisted
  have hnodup := nodup_mergedKeys names provider daysInMonth lines
  have hkeys := mem_mergedKeys names provider daysInMonth lines
  rw [hsplit] at horder hnodup hkeys hperm
  have hentry : entry ∈ before ++ entry :: after := by simp
  refine ⟨isUsage_usageItem _ _ _, ?_, ?_, ?_⟩
  · have hids : (entry.2.lines.map (·.id)).mergeSort ≠ [] := by
      intro hnil
      have hlength := congrArg List.length hnil
      rw [List.length_mergeSort, List.length_map, List.length_nil, List.length_eq_zero_iff] at hlength
      exact hlisted entry (hperm.mem_iff.mp hentry) hlength
    exact hids
  · exact (hkeys entry.1).mp (List.mem_map.mpr ⟨entry, hentry, rfl⟩)
  · refine List.filter_congr fun group _ => ?_
    rw [Bool.eq_iff_iff, first_iff_assigned before after entry group horder hnodup, decide_eq_true_eq]
    exact assigned_congr _ _ hkeys group entry.1

theorem leftover_item (lines : List InvoiceLine) (priced : List PricedGroup) (item : Item)
    (h : item ∈ leftoverItems
      (takeGroups (orderedEntries (mergedLines names provider daysInMonth lines).entries) priced).2) :
    item.invoiceLineIds = [] ∧ ∀ group ∈ item.members,
      ∀ key ∈ lineKeys names provider daysInMonth lines, fits key group = false := by
  refine ⟨leftoverItems_forall (·.invoiceLineIds = []) (fun _ _ => List.mergeSort_nil) _ item h, ?_⟩
  intro group hg key hk
  have hleft : group ∈ (takeGroups (orderedEntries (mergedLines names provider daysInMonth lines).entries) priced).2 :=
    (leftoverItems_members _).mem_iff.mp (List.mem_flatMap.mpr ⟨item, h, hg⟩)
  rw [takeGroups_left, List.mem_filter, List.all_eq_true] at hleft
  obtain ⟨entry, he, rfl⟩ := List.mem_map.mp ((mem_mergedKeys names provider daysInMonth lines key).mpr hk)
  simpa using hleft.2 entry he

theorem mem_usageItems (lines : List InvoiceLine) (priced : List PricedGroup) (item : Item)
    (h : item ∈ matchLines names provider daysInMonth lines priced) (hu : item.isUsage = true) :
    item ∈ usageItems names provider daysInMonth lines priced := by
  rw [← filter_matchLines]
  exact List.mem_filter.mpr ⟨h, hu⟩

theorem matchLines_mostSpecific (lines : List InvoiceLine) (priced : List PricedGroup) :
    MostSpecific (lineKeys names provider daysInMonth lines) priced
      (matchLines names provider daysInMonth lines priced) where
  lines := by
    intro item hi hu hids
    rcases List.mem_append.mp (mem_usageItems lines priced item hi hu) with h | h
    · exact (taken_item lines priced item h).2.2
    · exact absurd (leftover_item lines priced item h).1 hids
  each := by
    intro key hk
    have hmap := takeGroups_map (fun key _ => key) (·.key) (fun _ _ _ => rfl)
      (orderedEntries (mergedLines names provider daysInMonth lines).entries) priced
    have hmem := (mem_mergedKeys names provider daysInMonth lines key).mpr hk
    rw [← hmap] at hmem
    obtain ⟨item, hi, rfl⟩ := List.mem_map.mp hmem
    obtain ⟨hu, hids, _⟩ := taken_item lines priced item hi
    have husage : item ∈ usageItems names provider daysInMonth lines priced := List.mem_append_left _ hi
    rw [← filter_matchLines] at husage
    exact ⟨item, (List.mem_filter.mp husage).1, hu, hids, rfl⟩
  left := by
    intro item hi hu hids
    rcases List.mem_append.mp (mem_usageItems lines priced item hi hu) with h | h
    · exact absurd hids (taken_item lines priced item h).2.1
    · exact (leftover_item lines priced item h).2
  taken := fun group _ key hk hf => exists_assigned _ group key hk hf

-- The set of the lines' keys and the group decide, whatever the order of lines and groups is.
theorem groups_most_specific (names : Naming) (provider : String) (daysInMonth : Nat) (lines : List InvoiceLine) (priced : List PricedGroup) :
    MostSpecific (lineKeys names provider daysInMonth lines) priced
        (matchLines names provider daysInMonth lines priced) ∧
      ∀ (others : List InvoiceLine) (groups : List PricedGroup),
        (∀ key, key ∈ lineKeys names provider daysInMonth others ↔ key ∈ lineKeys names provider daysInMonth lines) →
        groups.Perm priced →
        ∀ item ∈ matchLines names provider daysInMonth lines priced, item.isUsage = true → item.invoiceLineIds ≠ [] →
          ∃ other ∈ matchLines names provider daysInMonth others groups, other.isUsage = true ∧
            other.invoiceLineIds ≠ [] ∧ other.key = item.key ∧ other.members.Perm item.members := by
  refine ⟨matchLines_mostSpecific lines priced, ?_⟩
  intro others groups hkeys hperm item hi hu hids
  obtain ⟨hkey, hmembers⟩ := (matchLines_mostSpecific lines priced).lines item hi hu hids
  obtain ⟨other, ho, hou, hoids, hokey⟩ :=
    (matchLines_mostSpecific others groups).each item.key ((hkeys item.key).mpr hkey)
  refine ⟨other, ho, hou, hoids, hokey, ?_⟩
  rw [hmembers, ((matchLines_mostSpecific others groups).lines other ho hou hoids).2, hokey]
  have hsame : (groups.filter fun group =>
      decide (Assigned (lineKeys names provider daysInMonth others) group item.key)) =
        groups.filter fun group => decide (Assigned (lineKeys names provider daysInMonth lines) group item.key) := by
    refine List.filter_congr fun group _ => ?_
    rw [decide_eq_decide]
    exact assigned_congr _ _ hkeys group item.key
  rw [hsame]
  exact hperm.filter _

-- A line for the pages of one day, or of the month.
def pageLine (lineNo : Int) (day : Option Date) : InvoiceLine :=
  ⟨"line", "invoice", lineNo, .usage, some .ocrPages, "", some .ocrPage, none, 0, day⟩

-- The day's line comes second and still takes the day's pages from the month's line.
theorem groups_most_specific_day :
    ∃ item ∈ matchLines plainNaming "tesseract_cloud" 30 [pageLine 1 none, pageLine 2 (some 0)] [pageGroup 1],
      item.isUsage = true ∧ item.invoiceLineIds ≠ [] ∧ item.key.day = some 0 ∧ item.members.Perm [pageGroup 1] := by
  obtain ⟨hspecific, hsame⟩ := groups_most_specific plainNaming "tesseract_cloud" 30
    [pageLine 2 (some 0), pageLine 1 none] [pageGroup 1]
  obtain ⟨item, hi, hu, hids, hkey⟩ := hspecific.each ⟨some .ocrPages, "", some .ocrPage, some 0⟩ (by decide)
  obtain ⟨other, ho, hou, hoids, hokey, hmembers⟩ := hsame [pageLine 1 none, pageLine 2 (some 0)] [pageGroup 1]
    (fun key => (List.Perm.swap _ _ []).mem_iff) (List.Perm.refl _) item hi hu hids
  refine ⟨other, ho, hou, hoids, by rw [hokey, hkey], hmembers.trans ?_⟩
  rw [(hspecific.lines item hi hu hids).2, hkey, List.filter_cons_of_pos (by decide)]
  exact List.Perm.refl _

end Matching

end AgenticOrg.Spend
