import AgenticOrg.Commerce.Ucp.Evaluation.Amounts
import AgenticOrg.Commerce.Ucp.Evaluation.Rebuilt
import AgenticOrg.Commerce.Ucp.Orders
import Mathlib.Data.List.Forall2

namespace AgenticOrg.Commerce.Ucp

open Fallible
open AgenticOrg.Workflows (Json Scalar)

section Lines

structure Sound (quantity : LineQuantity) : Prop where
  nonneg : 0 ≤ quantity.fulfilled
  fulfilled_le : quantity.fulfilled ≤ quantity.total
  total_le : quantity.total ≤ quantity.original

-- What becomes of a line: it stays sound, and its total only falls.
structure Evolves (before after : OrderLine) : Prop where
  id : after.id = before.id
  original : after.quantity.original = before.quantity.original
  sound : Sound before.quantity → Sound after.quantity ∧ after.quantity.total ≤ before.quantity.total

theorem Evolves.refl (line : OrderLine) : Evolves line line := ⟨rfl, rfl, fun h => ⟨h, le_refl _⟩⟩

theorem Evolves.trans (first second third : OrderLine) (h : Evolves first second) (h' : Evolves second third) :
    Evolves first third := by
  refine ⟨h'.id.trans h.id, h'.original.trans h.original, fun hsound => ?_⟩
  obtain ⟨hsecond, hle⟩ := h.sound hsound
  obtain ⟨hthird, hle'⟩ := h'.sound hsecond
  exact ⟨hthird, by omega⟩

abbrev AllEvolve (before after : List OrderLine) : Prop := List.Forall₂ Evolves before after

theorem AllEvolve.refl (lines : List OrderLine) : AllEvolve lines lines :=
  List.forall₂_same.mpr fun line _ => Evolves.refl line

theorem AllEvolve.trans (first second third : List OrderLine) (h : AllEvolve first second)
    (h' : AllEvolve second third) : AllEvolve first third := by
  induction h generalizing third with
  | nil => exact h'
  | cons hline _ ih =>
      cases h' with
      | cons hline' hrest => exact .cons (Evolves.trans _ _ _ hline hline') (ih _ hrest)

-- A change of quantities that keeps them sound and lowers the total at most.
def Keeps (change : LineQuantity → LineQuantity) : Prop :=
  ∀ quantity, (change quantity).original = quantity.original ∧
    (Sound quantity → Sound (change quantity) ∧ (change quantity).total ≤ quantity.total)

theorem advanced_keeps (quantity : ℤ) (h : 1 ≤ quantity) : Keeps (advanced quantity) := by
  refine fun line => ⟨rfl, fun hsound => ⟨⟨?_, min_le_left _ _, hsound.total_le⟩, le_refl _⟩⟩
  have hnonneg := hsound.nonneg
  have hle := hsound.fulfilled_le
  exact le_min (by omega) (by omega)

theorem reduced_keeps (quantity : ℤ) : Keeps (reduced quantity) := by
  intro line
  unfold reduced
  by_cases h : quantity < 0
  · rw [if_pos h]
    refine ⟨rfl, fun hsound => ?_⟩
    have hnonneg := hsound.nonneg
    have hle := hsound.fulfilled_le
    have htotal := hsound.total_le
    have hless : max 0 (line.total + quantity) ≤ line.total := max_le (by omega) (by omega)
    exact ⟨⟨le_min hnonneg (le_max_left _ _), min_le_right _ _, hless.trans htotal⟩, hless⟩
  · rw [if_neg h]
    exact ⟨rfl, fun hsound => ⟨hsound, le_refl _⟩⟩

theorem changeLine_evolves (id : String) (change : LineQuantity → LineQuantity) (hkeeps : Keeps change)
    (lines : List OrderLine) : AllEvolve lines (changeLine id change lines) := by
  induction lines with
  | nil => exact .nil
  | cons line rest ih =>
      unfold changeLine
      split
      · exact .cons (Evolves.refl line) ih
      · split
        · obtain ⟨horiginal, hsound⟩ := hkeeps line.quantity
          exact .cons ⟨rfl, horiginal, hsound⟩ (AllEvolve.refl rest)
        · exact AllEvolve.refl _

theorem changeLines_evolves (change : ℤ → LineQuantity → LineQuantity) (refs : List LineRef)
    (hkeeps : ∀ ref ∈ refs, Keeps (change ref.quantity)) (lines : List OrderLine) :
    AllEvolve lines (changeLines change refs lines) := by
  unfold changeLines
  induction refs generalizing lines with
  | nil => exact AllEvolve.refl lines
  | cons ref rest ih =>
      have hone := changeLine_evolves ref.id (change ref.quantity) (hkeeps ref List.mem_cons_self) lines
      exact AllEvolve.trans _ _ _ hone (ih (fun other ho => hkeeps other (List.mem_cons_of_mem _ ho)) _)

theorem restate_evolves (lines : List OrderLine) : AllEvolve lines (restate lines) := by
  unfold restate
  induction lines with
  | nil => exact .nil
  | cons line rest ih => exact .cons ⟨rfl, rfl, fun h => ⟨h, le_refl _⟩⟩ ih

theorem restate_status (lines : List OrderLine) :
    ∀ line ∈ restate lines, line.status = lineStatus line.quantity := by
  intro line hline
  obtain ⟨before, _, rfl⟩ := List.mem_map.mp hline
  rfl

end Lines

section References

-- The quantities of an event's references are at least one.
theorem lineRefs_positive (ids : List String) (raw : Json) (refs : List LineRef)
    (h : lineRefs ids false raw = .ok refs) : ∀ ref ∈ refs, 1 ≤ ref.quantity := by
  unfold lineRefs at h
  split at h
  · intro ref href
    obtain ⟨entry, _, hentry⟩ := mem_of_mapM_ok _ _ _ h ref href
    unfold lineRef at hentry
    split at hentry
    · obtain ⟨id, _, hentry⟩ := (bind_ok _ _ _).mp hentry
      obtain ⟨quantity, hq, hentry⟩ := (bind_ok _ _ _).mp hentry
      obtain rfl := (pure_ok _ _).mp hentry
      unfold refQuantity at hq
      split at hq
      · split at hq
        · cases hq
        · rename_i hvalid
          cases hq
          by_contra hlow
          exact hvalid (.inl ⟨not_le.mp hlow, rfl⟩)
      · cases hq
    · cases hentry
  · cases h

end References

section Steps

-- An adjustment without its status, the one thing of it that may change.
def Adjustment.recorded (entry : Adjustment) : Adjustment := { entry with status := "" }

-- What becomes of an order: lines evolve, what is recorded stays in front of what comes.
structure OrderEvolves (before after : OrderRow) : Prop where
  lines : AllEvolve before.snapshot.lineItems after.snapshot.lineItems
  events : before.snapshot.events <+: after.snapshot.events
  adjustments : before.snapshot.adjustments.map Adjustment.recorded <+:
    after.snapshot.adjustments.map Adjustment.recorded

theorem OrderEvolves.refl (row : OrderRow) : OrderEvolves row row :=
  ⟨AllEvolve.refl _, List.prefix_refl _, List.prefix_refl _⟩

theorem OrderEvolves.trans (first second third : OrderRow) (h : OrderEvolves first second)
    (h' : OrderEvolves second third) : OrderEvolves first third :=
  ⟨AllEvolve.trans _ _ _ h.lines h'.lines, h.events.trans h'.events, h.adjustments.trans h'.adjustments⟩

def Stated (row : OrderRow) : Prop := ∀ line ∈ row.snapshot.lineItems, line.status = lineStatus line.quantity

def OrderRow.eventIds (row : OrderRow) : List String := row.snapshot.events.map EventEntry.id

def OrderRow.adjustmentIds (row : OrderRow) : List String := row.snapshot.adjustments.map Adjustment.id

-- What one accepted call does.
structure Accepts (before after : OrderRow) : Prop where
  evolves : OrderEvolves before after
  stated : Stated after
  revision : after.revision = before.revision + 1

variable (py : Python) (parseTime : Json → Option String)

theorem applyFulfillmentEvent_ok (snapshot after : Snapshot) (event : Json) (now : String) (eventId : Option String)
    (fresh : String) (h : applyFulfillmentEvent py parseTime snapshot event now eventId fresh = .ok after) :
    ∃ entry lines, after = { snapshot with lineItems := restate lines, events := snapshot.events ++ [entry] } ∧
      AllEvolve snapshot.lineItems lines ∧
      (entry.id ∉ snapshot.events.map EventEntry.id ∨ entry.id = "evt_" ++ fresh) := by
  unfold applyFulfillmentEvent at h
  dsimp only at h
  split at h
  · cases h
  · split at h
    · cases h
    · rename_i hduplicate
      obtain ⟨refs, hrefs, h⟩ := (bind_ok _ _ _).mp h
      obtain rfl := (pure_ok _ _).mp h
      refine ⟨_, _, rfl, ?_, ?_⟩
      · split_ifs
        · exact changeLines_evolves advanced refs (fun ref href =>
            advanced_keeps ref.quantity (lineRefs_positive _ _ _ hrefs ref href)) _
        · exact AllEvolve.refl _
      · cases eventId with
        | none => exact .inr rfl
        | some id =>
            by_cases hempty : id = ""
            · refine .inr ?_
              rw [Option.bind_some, nonEmpty, if_pos hempty]
              rfl
            · refine .inl ?_
              rw [Option.bind_some, nonEmpty_of_ne id hempty, Option.getD_some]
              intro hin
              exact hduplicate (List.contains_iff_mem.mpr hin)

theorem applyAdjustment_ok (snapshot after : Snapshot) (adjustment : Json) (now : String) (entryId : Option String)
    (fresh : String) (h : applyAdjustment py snapshot adjustment now entryId fresh = .ok after) :
    ∃ entry lines, after = { snapshot with
        lineItems := restate lines, adjustments := snapshot.adjustments ++ [entry] } ∧
      AllEvolve snapshot.lineItems lines ∧ (entryId = some entry.id ∨ entry.id = "adj_" ++ fresh) := by
  unfold applyAdjustment at h
  dsimp only at h
  split at h
  · cases h
  · obtain ⟨refs, _, h⟩ := (bind_ok _ _ _).mp h
    obtain ⟨totals, _, h⟩ := (bind_ok _ _ _).mp h
    obtain rfl := (pure_ok _ _).mp h
    refine ⟨_, _, rfl, ?_, ?_⟩
    · split_ifs
      · exact changeLines_evolves reduced _ (fun ref _ => reduced_keeps ref.quantity) _
      · exact AllEvolve.refl _
    · cases entryId with
      | none => exact .inr rfl
      | some id =>
          by_cases hempty : id = ""
          · refine .inr ?_
            rw [Option.bind_some, nonEmpty, if_pos hempty]
            rfl
          · refine .inl ?_
            rw [Option.bind_some, nonEmpty_of_ne id hempty, Option.getD_some]

theorem moveAdjustment_recorded (id status : String) (entries : List Adjustment) :
    (moveAdjustment id status entries).map Adjustment.recorded = entries.map Adjustment.recorded := by
  induction entries with
  | nil => rfl
  | cons entry rest ih =>
      unfold moveAdjustment
      split
      · rfl
      · rw [List.map_cons, List.map_cons, ih]

theorem applyOrderChange_cases (row : OrderRow) (event adjustment : Option Json)
    (eventId adjustmentId : Option String) (fresh now : String) :
    ((applyOrderChange py parseTime row event adjustment eventId adjustmentId fresh now).1 = row ∧
      (applyOrderChange py parseTime row event adjustment eventId adjustmentId fresh now).2 ≠ .accepted) ∨
    ∃ snapshot, applyOrderChange py parseTime row event adjustment eventId adjustmentId fresh now =
        (⟨snapshot, row.revision + 1⟩, .accepted) ∧ (adjustmentId.any row.snapshot.holdsAdjustment) = false ∧
      ((∃ body, applyFulfillmentEvent py parseTime row.snapshot body now eventId fresh = .ok snapshot) ∨
        ∃ body, applyAdjustment py row.snapshot body now adjustmentId fresh = .ok snapshot) := by
  have hcommit : ∀ result : Except OrderRefusal Snapshot,
      ((commitChange row result).1 = row ∧ (commitChange row result).2 ≠ .accepted) ∨
        ∃ snapshot, commitChange row result = (⟨snapshot, row.revision + 1⟩, .accepted) ∧ result = .ok snapshot := by
    intro result
    cases result with
    | ok snapshot => exact .inr ⟨snapshot, rfl, rfl⟩
    | error refusal =>
        refine .inl ⟨rfl, ?_⟩
        cases refusal <;> exact fun h => by cases h
  unfold applyOrderChange
  by_cases hone : event.isNone = adjustment.isNone
  · rw [if_pos hone]
    exact .inl ⟨rfl, fun h => by cases h⟩
  · rw [if_neg hone]
    cases hheld : adjustmentId.any row.snapshot.holdsAdjustment with
    | true => exact .inl ⟨rfl, fun h => by cases h⟩
    | false =>
        rw [if_neg Bool.false_ne_true]
        cases event with
        | some event =>
            rcases hcommit (applyFulfillmentEvent py parseTime row.snapshot event now eventId fresh) with
              hsame | ⟨snapshot, hstored, hok⟩
            · exact .inl hsame
            · exact .inr ⟨snapshot, hstored, rfl, .inl ⟨event, hok⟩⟩
        | none =>
            rcases hcommit (applyAdjustment py row.snapshot (adjustment.getD .null) now adjustmentId fresh) with
              hsame | ⟨snapshot, hstored, hok⟩
            · exact .inl hsame
            · exact .inr ⟨snapshot, hstored, rfl, .inr ⟨_, hok⟩⟩

theorem setOrderAdjustmentStatus_cases (row : OrderRow) (id status : String) :
    ((setOrderAdjustmentStatus row id status).1 = row ∧ (setOrderAdjustmentStatus row id status).2 ≠ .accepted) ∨
      setOrderAdjustmentStatus row id status =
        (⟨{ row.snapshot with
            lineItems := restate row.snapshot.lineItems
            adjustments := moveAdjustment id status row.snapshot.adjustments }, row.revision + 1⟩, .accepted) := by
  unfold setOrderAdjustmentStatus
  split
  · exact .inl ⟨rfl, fun h => by cases h⟩
  · split
    · exact .inl ⟨rfl, fun h => by cases h⟩
    · split
      · exact .inl ⟨rfl, fun h => by cases h⟩
      · exact .inr rfl

-- The ids a call generates, where it has to.
def freshIds : OrderCall → List String
  | .change _ _ _ _ fresh _ => ["evt_" ++ fresh, "adj_" ++ fresh]
  | .setStatus _ _ => []

-- A call is accepted and changes the order as told, or leaves it as it is.
theorem orderStep_cases (row : OrderRow) (call : OrderCall) :
    ((orderStep py parseTime row call).1 = row ∧ (orderStep py parseTime row call).2 ≠ .accepted) ∨
    ((orderStep py parseTime row call).2 = .accepted ∧ Accepts row (orderStep py parseTime row call).1 ∧
      ((∀ id ∈ freshIds call, id ∉ row.eventIds ∧ id ∉ row.adjustmentIds) →
        row.eventIds.Nodup → row.adjustmentIds.Nodup →
        (orderStep py parseTime row call).1.eventIds.Nodup ∧
          (orderStep py parseTime row call).1.adjustmentIds.Nodup)) := by
  cases call with
  | change event adjustment eventId adjustmentId fresh now =>
      rcases applyOrderChange_cases py parseTime row event adjustment eventId adjustmentId fresh now with
        hsame | ⟨snapshot, hstored, hheld, ⟨body, hok⟩ | ⟨body, hok⟩⟩
      · exact .inl hsame
      · obtain ⟨entry, lines, rfl, hlines, hid⟩ := applyFulfillmentEvent_ok py parseTime _ _ _ _ _ _ hok
        refine .inr ?_
        show (applyOrderChange _ _ _ _ _ _ _ _ _).2 = _ ∧ Accepts row (applyOrderChange _ _ _ _ _ _ _ _ _).1 ∧
          (_ → _ → _ → (applyOrderChange _ _ _ _ _ _ _ _ _).1.eventIds.Nodup ∧
            (applyOrderChange _ _ _ _ _ _ _ _ _).1.adjustmentIds.Nodup)
        rw [hstored]
        refine ⟨rfl, ⟨⟨AllEvolve.trans _ _ _ hlines (restate_evolves lines), List.prefix_append _ _,
          List.prefix_refl _⟩, restate_status lines, rfl⟩, fun hfresh hevents hadjustments => ⟨?_, hadjustments⟩⟩
        have hnew : entry.id ∉ row.eventIds := by
          rcases hid with hid | hid
          · exact hid
          · rw [hid]
            exact (hfresh _ List.mem_cons_self).1
        show ((row.snapshot.events ++ [entry]).map EventEntry.id).Nodup
        rw [List.map_append]
        exact List.nodup_append'.mpr ⟨hevents, List.nodup_singleton _,
          List.disjoint_singleton.mpr hnew⟩
      · obtain ⟨entry, lines, rfl, hlines, hid⟩ := applyAdjustment_ok py _ _ _ _ _ _ hok
        refine .inr ?_
        show (applyOrderChange _ _ _ _ _ _ _ _ _).2 = _ ∧ Accepts row (applyOrderChange _ _ _ _ _ _ _ _ _).1 ∧
          (_ → _ → _ → (applyOrderChange _ _ _ _ _ _ _ _ _).1.eventIds.Nodup ∧
            (applyOrderChange _ _ _ _ _ _ _ _ _).1.adjustmentIds.Nodup)
        rw [hstored]
        refine ⟨rfl, ⟨⟨AllEvolve.trans _ _ _ hlines (restate_evolves lines), List.prefix_refl _, ?_⟩,
          restate_status lines, rfl⟩, fun hfresh hevents hadjustments => ⟨hevents, ?_⟩⟩
        · show row.snapshot.adjustments.map Adjustment.recorded <+:
            (row.snapshot.adjustments ++ [entry]).map Adjustment.recorded
          rw [List.map_append]
          exact List.prefix_append _ _
        · have hnew : entry.id ∉ row.adjustmentIds := by
            rcases hid with hid | hid
            · rw [hid] at hheld
              intro hin
              have hcontains : row.snapshot.holdsAdjustment entry.id = true := List.contains_iff_mem.mpr hin
              rw [Option.any_some, hcontains] at hheld
              cases hheld
            · rw [hid]
              exact (hfresh _ (List.mem_cons_of_mem _ List.mem_cons_self)).2
          show ((row.snapshot.adjustments ++ [entry]).map Adjustment.id).Nodup
          rw [List.map_append]
          exact List.nodup_append'.mpr ⟨hadjustments, List.nodup_singleton _,
            List.disjoint_singleton.mpr hnew⟩
  | setStatus id status =>
      rcases setOrderAdjustmentStatus_cases row id status with hsame | hstored
      · exact .inl hsame
      · have hrecorded := moveAdjustment_recorded id status row.snapshot.adjustments
        refine .inr ?_
        show (setOrderAdjustmentStatus row id status).2 = _ ∧ Accepts row (setOrderAdjustmentStatus row id status).1 ∧
          (_ → _ → _ → (setOrderAdjustmentStatus row id status).1.eventIds.Nodup ∧
            (setOrderAdjustmentStatus row id status).1.adjustmentIds.Nodup)
        rw [hstored]
        refine ⟨rfl, ⟨⟨restate_evolves _, List.prefix_refl _, ?_⟩, restate_status _, rfl⟩,
          fun _ hevents hadjustments => ⟨hevents, ?_⟩⟩
        · show row.snapshot.adjustments.map Adjustment.recorded <+:
            (moveAdjustment id status row.snapshot.adjustments).map Adjustment.recorded
          refine ⟨[], ?_⟩
          rw [List.append_nil, hrecorded]
        · have hids : ∀ entries : List Adjustment,
              (entries.map Adjustment.recorded).map Adjustment.id = entries.map Adjustment.id := by
            intro entries
            rw [List.map_map]
            rfl
          show ((moveAdjustment id status row.snapshot.adjustments).map Adjustment.id).Nodup
          rw [← hids, hrecorded, hids]
          exact hadjustments

end Steps

section Runs

variable (py : Python) (parseTime : Json → Option String)

theorem orderRun_cons (row : OrderRow) (call : OrderCall) (rest : List OrderCall) :
    orderRun py parseTime row (call :: rest) = orderRun py parseTime (orderStep py parseTime row call).1 rest := rfl

-- What a run makes of an order.
theorem orderRun_evolves (calls : List OrderCall) (row : OrderRow) (hstated : Stated row) :
    OrderEvolves row (orderRun py parseTime row calls) ∧ Stated (orderRun py parseTime row calls) ∧
      (orderRun py parseTime row calls).revision = row.revision + acceptedCount py parseTime row calls := by
  induction calls generalizing row with
  | nil => exact ⟨OrderEvolves.refl row, hstated, rfl⟩
  | cons call rest ih =>
      rw [orderRun_cons, acceptedCount]
      rcases orderStep_cases py parseTime row call with ⟨hsame, hnot⟩ | ⟨haccepted, haccepts, _⟩
      · rw [if_neg hnot, hsame, Nat.zero_add]
        exact ih row hstated
      · obtain ⟨hevolves, hrest, hrevision⟩ := ih _ haccepts.stated
        rw [if_pos haccepted, hrevision, haccepts.revision]
        exact ⟨OrderEvolves.trans _ _ _ haccepts.evolves hevolves, hrest, by omega⟩

-- No id that a call of the run generates is held by the order it comes to.
def GeneratesFresh (row : OrderRow) : List OrderCall → Prop
  | [] => True
  | call :: rest =>
      (∀ id ∈ freshIds call, id ∉ row.eventIds ∧ id ∉ row.adjustmentIds) ∧
        GeneratesFresh (orderStep py parseTime row call).1 rest

theorem orderRun_distinct (calls : List OrderCall) (row : OrderRow) (hfresh : GeneratesFresh py parseTime row calls)
    (hevents : row.eventIds.Nodup) (hadjustments : row.adjustmentIds.Nodup) :
    (orderRun py parseTime row calls).eventIds.Nodup ∧ (orderRun py parseTime row calls).adjustmentIds.Nodup := by
  induction calls generalizing row with
  | nil => exact ⟨hevents, hadjustments⟩
  | cons call rest ih =>
      obtain ⟨hnew, hfresh⟩ := hfresh
      rw [orderRun_cons]
      rcases orderStep_cases py parseTime row call with ⟨hsame, _⟩ | ⟨_, _, hkept⟩
      · rw [hsame] at hfresh ⊢
        exact ih row hfresh hevents hadjustments
      · obtain ⟨hevents, hadjustments⟩ := hkept hnew hevents hadjustments
        exact ih _ hfresh hevents hadjustments

theorem newOrder_sound (state : State) (acceptedTerm : Option Json) :
    ∀ line ∈ (newOrder state acceptedTerm).snapshot.lineItems, Sound line.quantity := by
  intro line hline
  obtain ⟨before, _, rfl⟩ := List.mem_map.mp hline
  exact ⟨le_refl _, Int.natCast_nonneg _, le_refl _⟩

theorem newOrder_stated (state : State) (acceptedTerm : Option Json) : Stated (newOrder state acceptedTerm) := by
  intro line hline
  obtain ⟨before, _, rfl⟩ := List.mem_map.mp hline
  rfl

theorem sound_of_evolves (before after : List OrderLine) (h : AllEvolve before after)
    (hsound : ∀ line ∈ before, Sound line.quantity) : ∀ line ∈ after, Sound line.quantity := by
  induction h with
  | nil => exact hsound
  | cons hline _ ih =>
      rw [List.forall_mem_cons] at hsound ⊢
      exact ⟨(hline.sound hsound.1).1, ih hsound.2⟩

-- A line keeps its id and what was ordered, and its total does not rise.
structure NotRaised (before after : OrderLine) : Prop where
  id : after.id = before.id
  original : after.quantity.original = before.quantity.original
  total : after.quantity.total ≤ before.quantity.total

theorem notRaised_of_evolves (before after : List OrderLine) (h : AllEvolve before after)
    (hsound : ∀ line ∈ before, Sound line.quantity) : List.Forall₂ NotRaised before after := by
  induction h with
  | nil => exact .nil
  | cons hline _ ih =>
      rw [List.forall_mem_cons] at hsound
      exact .cons ⟨hline.id, hline.original, (hline.sound hsound.1).2⟩ (ih hsound.2)

-- A change the order already holds: an event or adjustment of that id, or the status it has.
def Repeats (row : OrderRow) : OrderCall → Prop
  | .change event _ eventId adjustmentId _ _ =>
      (event.isSome = true ∧ ∃ id ∈ row.eventIds, eventId = some id) ∨
        ∃ id ∈ row.adjustmentIds, adjustmentId = some id
  | .setStatus id status =>
      ∃ entry, (row.snapshot.adjustments.find? fun entry => entry.id = id) = some entry ∧ entry.status = status

theorem orderStep_repeats (row : OrderRow) (call : OrderCall) (h : Repeats row call) :
    (orderStep py parseTime row call).2 ≠ .accepted := by
  cases call with
  | change event adjustment eventId adjustmentId fresh now =>
      show (applyOrderChange py parseTime row event adjustment eventId adjustmentId fresh now).2 ≠ .accepted
      unfold applyOrderChange
      split
      · exact fun h => by cases h
      · split
        · exact fun h => by cases h
        · rename_i hheld
          rcases h with ⟨hevent, id, hid, rfl⟩ | ⟨id, hid, rfl⟩
          · obtain ⟨event, rfl⟩ := Option.isSome_iff_exists.mp hevent
            have hduplicate : (some id).any (fun id => (row.snapshot.events.map EventEntry.id).contains id) = true :=
              List.contains_iff_mem.mpr hid
            have hrefused : ∃ refusal,
                applyFulfillmentEvent py parseTime row.snapshot event now (some id) fresh = .error refusal := by
              unfold applyFulfillmentEvent
              dsimp only
              rw [if_pos hduplicate]
              split <;> exact ⟨_, rfl⟩
            obtain ⟨refusal, hrefused⟩ := hrefused
            dsimp only
            rw [hrefused]
            cases refusal <;> exact fun h => by cases h
          · exact absurd (List.contains_iff_mem.mpr hid) hheld
  | setStatus id status =>
      obtain ⟨entry, hfind, hstatus⟩ := h
      show (setOrderAdjustmentStatus row id status).2 ≠ .accepted
      unfold setOrderAdjustmentStatus
      split
      · exact fun h => by cases h
      · rw [hfind]
        dsimp only
        rw [if_pos hstatus]
        exact fun h => by cases h

-- Over every run of changes to an order: its lines stay sound and stated, what is recorded stays, the revision
-- counts the accepted calls, and a call that is refused or repeats what is held changes nothing.
theorem order_kept (state : State) (acceptedTerm : Option Json) (first second : List OrderCall) :
    (∀ line ∈ (orderRun py parseTime (newOrder state acceptedTerm) first).snapshot.lineItems,
      (0 ≤ line.quantity.fulfilled ∧ line.quantity.fulfilled ≤ line.quantity.total ∧
        line.quantity.total ≤ line.quantity.original) ∧ line.status = lineStatus line.quantity) ∧
    List.Forall₂ NotRaised (orderRun py parseTime (newOrder state acceptedTerm) first).snapshot.lineItems
      (orderRun py parseTime (newOrder state acceptedTerm) (first ++ second)).snapshot.lineItems ∧
    (orderRun py parseTime (newOrder state acceptedTerm) first).snapshot.events <+:
      (orderRun py parseTime (newOrder state acceptedTerm) (first ++ second)).snapshot.events ∧
    (orderRun py parseTime (newOrder state acceptedTerm) first).snapshot.adjustments.map Adjustment.recorded <+:
      (orderRun py parseTime (newOrder state acceptedTerm) (first ++ second)).snapshot.adjustments.map
        Adjustment.recorded ∧
    (orderRun py parseTime (newOrder state acceptedTerm) (first ++ second)).revision =
      (orderRun py parseTime (newOrder state acceptedTerm) first).revision +
        acceptedCount py parseTime (orderRun py parseTime (newOrder state acceptedTerm) first) second ∧
    (∀ call, Repeats (orderRun py parseTime (newOrder state acceptedTerm) first) call ∨
        (orderStep py parseTime (orderRun py parseTime (newOrder state acceptedTerm) first) call).2 ≠ .accepted →
      (orderStep py parseTime (orderRun py parseTime (newOrder state acceptedTerm) first) call).1 =
        orderRun py parseTime (newOrder state acceptedTerm) first) ∧
    (GeneratesFresh py parseTime (newOrder state acceptedTerm) first →
      (orderRun py parseTime (newOrder state acceptedTerm) first).eventIds.Nodup ∧
        (orderRun py parseTime (newOrder state acceptedTerm) first).adjustmentIds.Nodup) := by
  have happend : orderRun py parseTime (newOrder state acceptedTerm) (first ++ second) =
      orderRun py parseTime (orderRun py parseTime (newOrder state acceptedTerm) first) second := List.foldl_append
  obtain ⟨hfirst, hstated, _⟩ := orderRun_evolves py parseTime first _ (newOrder_stated state acceptedTerm)
  obtain ⟨hsecond, _, hrevision⟩ := orderRun_evolves py parseTime second _ hstated
  have hsound := sound_of_evolves _ _ hfirst.lines (newOrder_sound state acceptedTerm)
  rw [happend]
  refine ⟨fun line hline => ⟨⟨(hsound line hline).nonneg, (hsound line hline).fulfilled_le,
    (hsound line hline).total_le⟩, hstated line hline⟩, notRaised_of_evolves _ _ hsecond.lines hsound, hsecond.events,
    hsecond.adjustments, hrevision, fun call hcall => ?_, fun hfresh => ?_⟩
  · have hnot : (orderStep py parseTime (orderRun py parseTime (newOrder state acceptedTerm) first) call).2 ≠
        .accepted := hcall.elim (orderStep_repeats py parseTime _ call) id
    rcases orderStep_cases py parseTime (orderRun py parseTime (newOrder state acceptedTerm) first) call with
      ⟨hsame, _⟩ | ⟨haccepted, _⟩
    · exact hsame
    · exact absurd haccepted hnot
  · exact orderRun_distinct py parseTime first _ hfresh List.nodup_nil List.nodup_nil

end Runs

section Samples

def coffeeLine : Line where
  id := "li_1"
  quantity := ⟨3, by decide⟩
  parentId := none
  item := ⟨"coffee", "Coffee", 1000, none, none⟩
  amount := 3000
  storefrontVariant := none

def coffeeState : State where
  lineItems := [coffeeLine]
  nextLineSeq := 2
  buyer := none
  consent := none
  context := none
  attribution := none
  signals := none
  currency := some "EUR"
  capabilities := []
  ucpVersion := "2026-08-25"
  fulfillment := none
  payment := none
  totals := ⟨3000, none, 3000⟩
  messages := []

def refJson (quantity : ℤ) : Json :=
  .arr [.obj [("id", .str "li_1"), ("quantity", .scalar (.int quantity))]]

def shipped (quantity : ℤ) (fresh : String) : OrderCall :=
  .change (some (.obj [("type", .str "shipped"), ("line_items", refJson quantity)])) none none none fresh "now"

def canceled (quantity : ℤ) (id : String) : OrderCall :=
  .change none (some (.obj [("type", .str "cancellation"), ("status", .str "completed"),
    ("line_items", refJson quantity)])) none (some id) "0" "now"

def changes : List OrderCall := [shipped 2 "1", canceled (-2) "refund", canceled (-2) "refund", shipped 5 "2"]

end Samples

theorem order_kept_sample :
    (orderRun plainPython (fun _ => none) (newOrder coffeeState none) changes).eventIds.Nodup ∧
      (orderRun plainPython (fun _ => none) (newOrder coffeeState none) changes).adjustmentIds.Nodup := by
  refine (order_kept plainPython (fun _ => none) coffeeState none changes []).2.2.2.2.2.2 ?_
  refine ⟨?_, ?_, ?_, ?_, trivial⟩ <;> decide +kernel

end AgenticOrg.Commerce.Ucp
