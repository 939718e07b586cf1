import AgenticOrg.Spend.Reconcile

namespace AgenticOrg.Spend

open OrderedDict Decimals

section Passes

theorem filter_append_filter_not_perm {α : Type} (test : α → Bool) (items : List α) :
    (items.filter test ++ items.filter fun item => !test item).Perm items := by
  induction items with
  | nil => exact .nil
  | cons item rest ih =>
      cases h : test item with
      | true =>
          rw [List.filter_cons_of_pos h, List.filter_cons_of_neg (by simp [h])]
          exact ih.cons item
      | false =>
          rw [List.filter_cons_of_neg (by simp [h]), List.filter_cons_of_pos (by simp [h])]
          exact List.perm_middle.trans (ih.cons item)

theorem takeGroups_members (entries : List (ItemKey × LineEntry)) (remaining : List PricedGroup) :
    ((takeGroups entries remaining).1.flatMap (·.members) ++ (takeGroups entries remaining).2).Perm
      remaining := by
  induction entries generalizing remaining with
  | nil => exact List.Perm.refl _
  | cons entry rest ih =>
      rw [takeGroups]
      dsimp only
      rw [List.flatMap_cons, List.append_assoc]
      refine ((ih _).append_left _).trans ?_
      exact filter_append_filter_not_perm (fits entry.1) remaining

theorem takeGroups_map {β : Type} (view : ItemKey → LineEntry → β) (read : Item → β)
    (hread : ∀ key entry members, read (usageItem key (some entry) members) = view key entry)
    (entries : List (ItemKey × LineEntry)) (remaining : List PricedGroup) :
    (takeGroups entries remaining).1.map read = entries.map fun entry => view entry.1 entry.2 := by
  induction entries generalizing remaining with
  | nil => rfl
  | cons entry rest ih =>
      rw [takeGroups]
      dsimp only
      rw [List.map_cons, List.map_cons, hread, ih]

theorem takeGroups_forall (P : Item → Prop) (hP : ∀ key entry members, P (usageItem key entry members))
    (entries : List (ItemKey × LineEntry)) (remaining : List PricedGroup) :
    ∀ item ∈ (takeGroups entries remaining).1, P item := by
  induction entries generalizing remaining with
  | nil => exact fun _ h => absurd h List.not_mem_nil
  | cons entry rest ih =>
      rw [takeGroups]
      intro item hi
      rcases List.mem_cons.mp hi with rfl | hi
      · exact hP _ _ _
      · exact ih _ item hi

theorem leftoverItems_members (remaining : List PricedGroup) :
    ((leftoverItems remaining).flatMap (·.members)).Perm remaining := by
  unfold leftoverItems
  dsimp only
  rw [List.flatMap_map]
  refine ((List.mergeSort_perm _ _).flatMap_right _).trans ?_
  exact Dict.gather_perm leftoverKey _ id (fun old _ => by cases old <;> rfl) remaining

theorem leftoverItems_forall (P : Item → Prop) (hP : ∀ key members, P (usageItem key none members))
    (remaining : List PricedGroup) : ∀ item ∈ leftoverItems remaining, P item := by
  intro item hi
  obtain ⟨entry, _, rfl⟩ := List.mem_map.mp hi
  exact hP _ _

theorem orderedEntries_perm (merged : List (ItemKey × LineEntry)) : (orderedEntries merged).Perm merged :=
  ((List.mergeSort_perm _ _).append (List.mergeSort_perm _ _)).trans
    (filter_append_filter_not_perm (fun entry => entry.1.isExact) merged)

theorem isUsage_usageItem (key : ItemKey) (entry : Option LineEntry) (members : List PricedGroup) :
    (usageItem key entry members).isUsage = true := by
  simp [Item.isUsage, usageItem]

theorem isUsage_nonUsageItem (line : InvoiceLine) (h : line.lineKind ≠ .usage) :
    (nonUsageItem line).isUsage = false := by
  simp [Item.isUsage, nonUsageItem, h]

end Passes

section Merging

variable (names : Naming) (provider : String) (daysInMonth : Nat)

def usageLines (lines : List InvoiceLine) : List InvoiceLine := lines.filter (·.lineKind = .usage)

theorem mergedLines_perm (lines : List InvoiceLine) :
    ((mergedLines names provider daysInMonth lines).entries.flatMap fun entry => entry.2.lines).Perm
      (usageLines lines) := by
  refine (Dict.gather_perm _ _ LineEntry.lines ?_ _).trans (List.mergeSort_perm _ _)
  intro old line
  cases old with
  | none => rfl
  | some entry => rfl

-- The amount of an entry is the running sum over its lines.
theorem mergedLines_amount (lines : List InvoiceLine) :
    ∀ entry ∈ (mergedLines names provider daysInMonth lines).entries,
      entry.2.amount = total DEFAULT_DIGITS (entry.2.lines.map (·.amount)) := by
  refine Dict.gather_forall _ _ _
    (fun entry : LineEntry => entry.amount = total DEFAULT_DIGITS (entry.lines.map (·.amount))) ?_
  intro old line hold
  cases old with
  | none => rfl
  | some entry =>
      have he := hold entry rfl
      simp only [addLine, Option.getD_some, List.map_append, List.map_cons, List.map_nil, total,
        List.foldl_append, List.foldl_cons, List.foldl_nil]
      rw [he]
      rfl

end Merging

section Conservation

-- Nothing of the lines and the groups is lost or counted twice. Sums are exact as long as the
-- digits of the decimal context hold them.
structure Conserves (lines : List InvoiceLine) (priced : List PricedGroup) (items : List Item) : Prop where
  members : ((items.filter Item.isUsage).flatMap (·.members)).Perm priced
  lineIds : (items.flatMap (·.invoiceLineIds)).Perm (lines.map (·.id))
  amounts : ∀ power, Exact DEFAULT_DIGITS power ((usageLines lines).map (·.amount)) →
    ((items.filter Item.isUsage).map (·.invoiceAmount)).sum = ((usageLines lines).map (·.amount)).sum
  unknown : ∀ figure invoiceAmount, (providerLevel items invoiceAmount).amount figure = none ↔
    ∃ group ∈ priced, group.total figure = none
  figures : ∀ figure invoiceAmount power totals, priced.map (·.total figure) = totals.map some →
    Exact DEFAULT_DIGITS power totals →
    (providerLevel items invoiceAmount).amount figure = some totals.sum

variable (names : Naming) (provider : String) (daysInMonth : Nat)

-- The items of usage, before the lines of other kinds.
def usageItems (lines : List InvoiceLine) (priced : List PricedGroup) : List Item :=
  let taken := takeGroups (orderedEntries (mergedLines names provider daysInMonth lines).entries) priced
  taken.1 ++ leftoverItems taken.2

theorem filter_matchLines (lines : List InvoiceLine) (priced : List PricedGroup) :
    (matchLines names provider daysInMonth lines priced).filter Item.isUsage =
      usageItems names provider daysInMonth lines priced := by
  have husage : ∀ item ∈ usageItems names provider daysInMonth lines priced, item.isUsage = true := by
    intro item hi
    rcases List.mem_append.mp hi with hi | hi
    · exact takeGroups_forall (·.isUsage = true) isUsage_usageItem _ _ item hi
    · exact leftoverItems_forall (·.isUsage = true) (fun key => isUsage_usageItem key none) _ item hi
  have hothers : ∀ item ∈ ((lines.filter (·.lineKind ≠ .usage)).mergeSort
      fun a b => (lineOrder a b).isLE).map nonUsageItem, ¬item.isUsage = true := by
    intro item hi
    obtain ⟨line, hl, rfl⟩ := List.mem_map.mp hi
    have hk := (List.mem_filter.mp ((List.mergeSort_perm _ _).mem_iff.mp hl)).2
    rw [isUsage_nonUsageItem line (by simpa using hk)]
    exact Bool.false_ne_true
  unfold matchLines
  rw [List.filter_append, List.filter_eq_nil_iff.mpr hothers, List.append_nil]
  exact List.filter_eq_self.mpr husage

theorem usageItems_members (lines : List InvoiceLine) (priced : List PricedGroup) :
    ((usageItems names provider daysInMonth lines priced).flatMap (·.members)).Perm priced := by
  unfold usageItems
  dsimp only
  rw [List.flatMap_append]
  exact ((leftoverItems_members _).append_left _).trans (takeGroups_members _ priced)

theorem takeGroups_lineIds (entries : List (ItemKey × LineEntry)) (remaining : List PricedGroup) :
    ((takeGroups entries remaining).1.flatMap (·.invoiceLineIds)).Perm
      ((entries.flatMap fun entry => entry.2.lines).map (·.id)) := by
  have hmap := takeGroups_map (fun _ entry => (entry.lines.map (·.id)).mergeSort) (·.invoiceLineIds)
    (fun _ _ _ => rfl) entries remaining
  rw [List.flatMap_def, hmap, ← List.flatMap_def, List.map_flatMap]
  exact List.Perm.flatMap_left _ fun entry _ => List.mergeSort_perm _ _

theorem leftoverItems_lineIds (remaining : List PricedGroup) :
    (leftoverItems remaining).flatMap (·.invoiceLineIds) = [] := by
  rw [List.flatMap_eq_nil_iff]
  refine leftoverItems_forall (·.invoiceLineIds = []) ?_ remaining
  intro key members
  exact List.mergeSort_nil

theorem matchLines_lineIds (lines : List InvoiceLine) (priced : List PricedGroup) :
    ((matchLines names provider daysInMonth lines priced).flatMap (·.invoiceLineIds)).Perm
      (lines.map (·.id)) := by
  have hothers : (((lines.filter (·.lineKind ≠ .usage)).mergeSort
      fun a b => (lineOrder a b).isLE).map nonUsageItem).flatMap (·.invoiceLineIds) =
        ((lines.filter (·.lineKind ≠ .usage)).mergeSort fun a b => (lineOrder a b).isLE).map (·.id) := by
    rw [List.flatMap_map, List.map_eq_flatMap]
    rfl
  unfold matchLines
  dsimp only
  rw [List.flatMap_append, List.flatMap_append, leftoverItems_lineIds, List.append_nil, hothers]
  have husage := (takeGroups_lineIds (orderedEntries (mergedLines names provider daysInMonth lines).entries)
    priced).trans ((((orderedEntries_perm _).flatMap_right _).trans
      (mergedLines_perm names provider daysInMonth lines)).map InvoiceLine.id)
  refine (husage.append ((List.mergeSort_perm _ _).map InvoiceLine.id)).trans ?_
  rw [← List.map_append]
  refine List.Perm.map _ ?_
  have hsplit := filter_append_filter_not_perm (fun line : InvoiceLine => decide (line.lineKind = .usage)) lines
  simpa [usageLines] using hsplit

theorem matchLines_amounts (lines : List InvoiceLine) (priced : List PricedGroup) (power : ℤ)
    (h : Exact DEFAULT_DIGITS power ((usageLines lines).map (·.amount))) :
    ((usageItems names provider daysInMonth lines priced).map (·.invoiceAmount)).sum =
      ((usageLines lines).map (·.amount)).sum := by
  have hzero : ((leftoverItems (takeGroups (orderedEntries
      (mergedLines names provider daysInMonth lines).entries) priced).2).map (·.invoiceAmount)).sum = 0 := by
    refine List.sum_eq_zero ?_
    intro amount ha
    obtain ⟨item, hi, rfl⟩ := List.mem_map.mp ha
    exact leftoverItems_forall (·.invoiceAmount = 0) (fun _ _ => rfl) _ item hi
  have hmap := takeGroups_map (fun _ entry => entry.amount) (·.invoiceAmount) (fun _ _ _ => rfl)
    (orderedEntries (mergedLines names provider daysInMonth lines).entries) priced
  have hperm := ((orderedEntries_perm (mergedLines names provider daysInMonth lines).entries).map
    fun entry => entry.2.amount).sum_eq
  -- the lines' amounts, entry by entry
  have hflat : (((mergedLines names provider daysInMonth lines).entries.map
      fun entry => entry.2.lines.map (·.amount)).flatten).Perm ((usageLines lines).map (·.amount)) := by
    rw [← List.flatMap_def, ← List.map_flatMap]
    exact (mergedLines_perm names provider daysInMonth lines).map _
  have hexact := Exact.perm DEFAULT_DIGITS power _ _ h hflat.symm
  have htotals : (mergedLines names provider daysInMonth lines).entries.map (fun entry => entry.2.amount) =
      ((mergedLines names provider daysInMonth lines).entries.map
        fun entry => entry.2.lines.map (·.amount)).map (total DEFAULT_DIGITS) := by
    rw [List.map_map]
    exact List.map_congr_left (mergedLines_amount names provider daysInMonth lines)
  unfold usageItems
  dsimp only
  rw [List.map_append, List.sum_append, hzero, add_zero, hmap, hperm, htotals,
    Exact.map_total DEFAULT_DIGITS power _ hexact, ← List.sum_flatten]
  exact hflat.sum_eq

theorem usageItems_amount (lines : List InvoiceLine) (priced : List PricedGroup) (figure : Figure) :
    ∀ item ∈ usageItems names provider daysInMonth lines priced,
      item.amount figure = totalOf item.members figure := by
  have hitem : ∀ key entry members,
      (usageItem key entry members).amount figure = totalOf (usageItem key entry members).members figure := by
    intro key entry members
    cases figure <;> rfl
  intro item hi
  rcases List.mem_append.mp hi with hi | hi
  · exact takeGroups_forall (fun item => item.amount figure = totalOf item.members figure) hitem _ _ item hi
  · exact leftoverItems_forall (fun item => item.amount figure = totalOf item.members figure)
      (fun key => hitem key none) _ item hi

theorem providerLevel_amount (items : List Item) (invoiceAmount : ℚ) (figure : Figure) :
    (providerLevel items invoiceAmount).amount figure =
      sumKnown ((items.filter Item.isUsage).map fun item => item.amount figure) := by
  cases figure <;> rfl

theorem matchLines_level (lines : List InvoiceLine) (priced : List PricedGroup) (invoiceAmount : ℚ)
    (figure : Figure) :
    (providerLevel (matchLines names provider daysInMonth lines priced) invoiceAmount).amount figure =
      sumKnown ((usageItems names provider daysInMonth lines priced).map
        fun item => totalOf item.members figure) := by
  rw [providerLevel_amount, filter_matchLines]
  exact congrArg sumKnown (List.map_congr_left (usageItems_amount names provider daysInMonth lines priced figure))

theorem matchLines_unknown (lines : List InvoiceLine) (priced : List PricedGroup) (invoiceAmount : ℚ)
    (figure : Figure) :
    (providerLevel (matchLines names provider daysInMonth lines priced) invoiceAmount).amount figure = none ↔
      ∃ group ∈ priced, group.total figure = none := by
  have hmembers := usageItems_members names provider daysInMonth lines priced
  rw [matchLines_level, sumKnown, totalKnown_eq_none_iff, List.mem_map]
  constructor
  · rintro ⟨item, hi, hnone⟩
    rw [totalOf, sumKnown, totalKnown_eq_none_iff, List.mem_map] at hnone
    obtain ⟨group, hg, hnone⟩ := hnone
    exact ⟨group, hmembers.mem_iff.mp (List.mem_flatMap.mpr ⟨item, hi, hg⟩), hnone⟩
  · rintro ⟨group, hg, hnone⟩
    obtain ⟨item, hi, hg⟩ := List.mem_flatMap.mp (hmembers.mem_iff.mpr hg)
    refine ⟨item, hi, ?_⟩
    rw [totalOf, sumKnown, totalKnown_eq_none_iff, List.mem_map]
    exact ⟨group, hg, hnone⟩

theorem matchLines_figures (lines : List InvoiceLine) (priced : List PricedGroup) (invoiceAmount : ℚ)
    (figure : Figure) (power : ℤ) (totals : List ℚ) (ht : priced.map (·.total figure) = totals.map some)
    (h : Exact DEFAULT_DIGITS power totals) :
    (providerLevel (matchLines names provider daysInMonth lines priced) invoiceAmount).amount figure =
      some totals.sum := by
  have hmembers := usageItems_members names provider daysInMonth lines priced
  -- every group's figure is known, so each is read off as a number
  have hknown : ∀ group ∈ priced, group.total figure = some ((group.total figure).getD 0) := by
    intro group hg
    have hm : group.total figure ∈ totals.map some := ht ▸ List.mem_map_of_mem hg
    obtain ⟨value, _, hv⟩ := List.mem_map.mp hm
    rw [← hv]
    rfl
  have htotals : priced.map (fun group => (group.total figure).getD 0) = totals := by
    have hget := congrArg (List.map fun value => Option.getD value 0) ht
    simpa [List.map_map, Function.comp_def] using hget
  have hflat : (((usageItems names provider daysInMonth lines priced).map fun item =>
      item.members.map fun group => (group.total figure).getD 0).flatten).Perm totals := by
    rw [← List.flatMap_def, ← List.map_flatMap, ← htotals]
    exact hmembers.map _
  have hitems : (usageItems names provider daysInMonth lines priced).map
        (fun item => totalOf item.members figure) =
      (((usageItems names provider daysInMonth lines priced).map fun item =>
        item.members.map fun group => (group.total figure).getD 0).map (total DEFAULT_DIGITS)).map some := by
    rw [List.map_map, List.map_map]
    refine List.map_congr_left fun item hi => ?_
    have hmap : item.members.map (fun group => group.total figure) =
        (item.members.map fun group => (group.total figure).getD 0).map some := by
      rw [List.map_map]
      refine List.map_congr_left fun group hg => ?_
      exact hknown group (hmembers.mem_iff.mp (List.mem_flatMap.mpr ⟨item, hi, hg⟩))
    rw [totalOf, sumKnown, hmap, totalKnown_some]
    rfl
  rw [matchLines_level, hitems, sumKnown, totalKnown_some,
    Exact.total_groups DEFAULT_DIGITS power _ (Exact.perm DEFAULT_DIGITS power _ _ h hflat.symm), hflat.sum_eq]

theorem matchLines_conserves (lines : List InvoiceLine) (priced : List PricedGroup) :
    Conserves lines priced (matchLines names provider daysInMonth lines priced) where
  members := by
    rw [filter_matchLines]
    exact usageItems_members names provider daysInMonth lines priced
  lineIds := matchLines_lineIds names provider daysInMonth lines priced
  amounts := by
    intro power h
    rw [filter_matchLines]
    exact matchLines_amounts names provider daysInMonth lines priced power h
  unknown := fun figure invoiceAmount =>
    matchLines_unknown names provider daysInMonth lines priced invoiceAmount figure
  figures := fun figure invoiceAmount power totals ht h =>
    matchLines_figures names provider daysInMonth lines priced invoiceAmount figure power totals ht h

end Conservation

section Samples

def plainNaming : Naming := ⟨fun _ => none, id, id⟩

-- The pages of one day, with one amount for both figures.
def pageGroup (amount : ℚ) : PricedGroup where
  billingDate := 0
  usageType := .ocrPages
  model := ""
  canonicalUnit := .ocrPage
  quantityCanonical := 1
  unpricedQuantity := 0
  unconvertedAmount := 0
  storedAmount := some amount
  repricedAmount := some amount
  adjustments := []
  fxConverted := false

def billedLine (id : String) (lineNo : Int) (lineKind : LineKind) (amount : ℚ) : InvoiceLine where
  id := id
  invoiceId := "i1"
  lineNo := lineNo
  lineKind := lineKind
  usageType := if lineKind = .usage then some .ocrPages else none
  modelSku := ""
  unit := if lineKind = .usage then some .ocrPage else none
  quantity := none
  amount := amount
  usageDate := none

-- Two lines of the pages and their tax.
def pageInvoice : List InvoiceLine :=
  [billedLine "l1" 1 .usage (1 / 2), billedLine "l2" 2 .tax (1 / 4), billedLine "l3" 3 .usage (5 / 2)]

def pageItems : List Item :=
  matchLines plainNaming "tesseract_cloud" 30 pageInvoice [pageGroup (1 / 2), pageGroup (5 / 2)]

theorem matchLines_conserves_pages :
    (pageItems.flatMap (·.invoiceLineIds)).Perm ["l1", "l2", "l3"] ∧
      ((pageItems.filter Item.isUsage).map (·.invoiceAmount)).sum = 3 ∧
      (providerLevel pageItems 3).amount .stored = some 3 := by
  have hexact : Exact DEFAULT_DIGITS (-1) [1 / 2, 5 / 2] := by
    refine ⟨?_, by norm_num [DEFAULT_DIGITS, abs_of_pos]⟩
    intro x hx
    rcases List.mem_cons.mp hx with rfl | hx
    · exact ⟨5, by norm_num⟩
    · rw [List.mem_singleton.mp hx]
      exact ⟨25, by norm_num⟩
  have hconserves := matchLines_conserves plainNaming "tesseract_cloud" 30 pageInvoice
    [pageGroup (1 / 2), pageGroup (5 / 2)]
  refine ⟨hconserves.lineIds, ?_, ?_⟩
  · have hamounts := hconserves.amounts (-1) hexact
    exact hamounts.trans (by decide +kernel)
  · have hfigures := hconserves.figures .stored 3 (-1) [1 / 2, 5 / 2] rfl hexact
    exact hfigures.trans (by norm_num)

-- Two groups at the top of their column: the 29th digit of the sum is lost.
theorem figure_sum_rounded :
    ¬∀ (names : Naming) (provider : String) (daysInMonth : Nat) (lines : List InvoiceLine)
      (priced : List PricedGroup) (invoiceAmount : ℚ) (totals : List ℚ),
      priced.map (·.total .stored) = totals.map some →
      (providerLevel (matchLines names provider daysInMonth lines priced) invoiceAmount).amount .stored =
        some totals.sum := by
  intro h
  have hlevel := h plainNaming "tesseract_cloud" 30 []
    [pageGroup (9999999999999999999999999999 / 10 ^ 10), pageGroup (9999999999999999999999999999 / 10 ^ 10)] 0
    [9999999999999999999999999999 / 10 ^ 10, 9999999999999999999999999999 / 10 ^ 10] rfl
  revert hlevel
  decide +kernel

end Samples

end AgenticOrg.Spend
