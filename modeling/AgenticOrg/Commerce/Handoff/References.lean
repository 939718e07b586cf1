import AgenticOrg.Commerce.Handoff.Records

namespace AgenticOrg.Commerce.Handoff.Records

open OrderedDict

section Definitions

def PaymentState.payable (state : PaymentState) (reference : String) : Bool :=
  payableRecord (state.orders.get? reference)

-- The references that can be paid, but for the current hand-off's.
def PaymentState.otherPayable (state : PaymentState) : List String :=
  state.refs.filter fun reference => some reference ≠ state.current ∧ state.payable reference = true

-- The references are remembered once each, and they are those that have a record.
structure Matched (state : PaymentState) : Prop where
  nodup : state.refs.Nodup
  recorded : ∀ reference, reference ∈ state.refs ↔ state.orders.contains reference = true

-- The link of a reference is the hand-off again.
def BroughtBack (state later : PaymentState) (reference : String) : Prop :=
  ∃ found handoff, state.orders.get? reference = some found ∧ later.handoff = some handoff ∧
    later.orders.get? reference = some found ∧ handoff.get? "reference" = some (.text reference) ∧
    handoff.get? "status" = some (.text "issued") ∧ handoff.get? "continue_url" = found.get? "continue_url" ∧
    later.continueUrl = some (found.get "continue_url")

end Definitions

section Records

theorem mem_linkFields (source : Record) (entry : String × Value) :
    entry ∈ linkFields source ↔ entry.1 ∈ LINK_FIELDS ∧ source.get? entry.1 = some entry.2 := by
  unfold linkFields
  rw [List.mem_filterMap]
  constructor
  · rintro ⟨field, hf, hvalue⟩
    obtain ⟨value, hget, rfl⟩ := Option.map_eq_some_iff.mp hvalue
    exact ⟨hf, hget⟩
  · rintro ⟨hf, hget⟩
    exact ⟨entry.1, hf, by rw [hget]; rfl⟩

theorem get?_recordOf_linkFields (source : Record) (field : String) (hf : field ∈ LINK_FIELDS) :
    (recordOf (linkFields source)).get? field = source.get? field := by
  cases hsource : source.get? field with
  | none =>
      rw [Dict.get?_eq_none_iff, recordOf, Dict.contains_ofList, List.any_eq_false]
      intro entry hentry hkey
      have hget := ((mem_linkFields source entry).mp hentry).2
      rw [eq_of_beq hkey, hsource] at hget
      cases hget
  | some value =>
      have hcontains : (recordOf (linkFields source)).contains field = true := by
        rw [recordOf, Dict.contains_ofList]
        exact List.any_eq_true.mpr ⟨_, (mem_linkFields source (field, value)).mpr ⟨hf, hsource⟩, beq_self_eq_true field⟩
      obtain ⟨found, hfound⟩ := Option.isSome_iff_exists.mp ((Dict.isSome_get? _ _).trans hcontains)
      obtain ⟨entry, hentry, hkey, rfl⟩ := Dict.mem_of_get?_ofList _ _ _ hfound
      have hget := ((mem_linkFields source entry).mp hentry).2
      rw [eq_of_beq hkey, hsource] at hget
      rw [hfound, hget]

theorem get?_handoffOf (reference : String) (found : Record) :
    (handoffOf reference found).get? "reference" = some (.text reference) ∧
      (handoffOf reference found).get? "status" = some (.text "issued") ∧
      (handoffOf reference found).get? "continue_url" = found.get? "continue_url" := by
  unfold handoffOf
  refine ⟨Dict.get?_insert_self _ _ _, ?_, ?_⟩
  · rw [Dict.get?_insert, if_neg (by decide), Dict.get?_insert_self]
  · rw [Dict.get?_insert, if_neg (by decide), Dict.get?_insert, if_neg (by decide), Dict.get?_merge,
      get?_recordOf_linkFields found _ (by decide)]
    exact Option.or_none

end Records

section Steps

variable (state : PaymentState)

theorem get?_setReferenceStatus (reference status other : String) (hne : other ≠ reference) :
    (setReferenceStatus state reference status).orders.get? other = state.orders.get? other := by
  unfold setReferenceStatus
  split
  · exact (Dict.get?_insert _ _ _ _).trans (if_neg (by simpa using hne.symm))
  · rfl

theorem refs_setReferenceStatus (reference status : String) :
    (setReferenceStatus state reference status).refs = state.refs := by
  unfold setReferenceStatus
  split <;> rfl

theorem contains_setReferenceStatus (reference status other : String) :
    (setReferenceStatus state reference status).orders.contains other = state.orders.contains other := by
  by_cases hne : other = reference
  · unfold setReferenceStatus
    split
    · rename_i found hfound
      rw [Dict.contains_insert, ← Dict.isSome_get? _ other, hne, hfound, Option.isSome_some, Bool.or_true]
    · rfl
  · rw [← Dict.isSome_get?, get?_setReferenceStatus state reference status other hne, Dict.isSome_get?]

variable {state} (h : Matched state)

include h

theorem Matched.setReferenceStatus (reference status : String) :
    Matched (setReferenceStatus state reference status) where
  nodup := by
    rw [refs_setReferenceStatus]
    exact h.nodup
  recorded := by
    intro other
    rw [refs_setReferenceStatus, contains_setReferenceStatus]
    exact h.recorded other

theorem Matched.clearHandoff (status : String) : Matched (clearHandoff state status) := ⟨h.nodup, h.recorded⟩

theorem Matched.rememberLink (handoff : Record) : Matched (rememberLink state handoff) := by
  unfold Records.rememberLink
  dsimp only
  split_ifs with hin
  · refine ⟨h.nodup, fun other => ?_⟩
    show other ∈ state.refs ↔ _
    rw [Dict.contains_insert, Bool.or_eq_true, beq_iff_eq]
    refine ⟨fun hother => .inr ((h.recorded other).mp hother), ?_⟩
    rintro (rfl | hother)
    · exact hin
    · exact (h.recorded other).mpr hother
  · exact h

end Steps

section Remembering

-- What is left of the records when some are dropped.
theorem get?_foldl_erase (stale : List String) (orders : Dict String Record) (reference : String) :
    (stale.foldl Dict.erase orders).get? reference = if reference ∈ stale then none else orders.get? reference := by
  induction stale generalizing orders with
  | nil => rfl
  | cons first rest ih =>
      rw [List.foldl_cons, ih, Dict.get?_erase]
      by_cases hfirst : reference = first
      · rw [hfirst, beq_self_eq_true, if_pos rfl, if_pos List.mem_cons_self, ite_self]
      · have hne : (first == reference) = false := beq_false_of_ne fun h => hfirst h.symm
        simp only [hne, List.mem_cons, hfirst, false_or]
        rfl

variable (state : PaymentState) (reference : String) (given : Record)

-- The references and the records before any are dropped.
def refsWith : List String := state.refs.filter (· ≠ reference) ++ [reference]

def ordersWith : Dict String Record :=
  state.orders.insert reference (((state.orders.get? reference).getD .empty).merge given)

def staleOf : List String :=
  (droppable (refsWith state reference) (ordersWith state reference given)).take
    ((refsWith state reference).length - MAX_REFERENCES)

theorem rememberReference_refs : (rememberReference state reference given).refs =
    (refsWith state reference).diff (staleOf state reference given) := (List.diff_eq_foldl _ _).symm

theorem get?_rememberReference (other : String) : (rememberReference state reference given).orders.get? other =
    if other ∈ staleOf state reference given then none else (ordersWith state reference given).get? other :=
  get?_foldl_erase _ _ _

theorem mem_refsWith (other : String) :
    other ∈ refsWith state reference ↔ other = reference ∨ other ∈ state.refs := by
  rw [refsWith, List.mem_append, List.mem_filter, List.mem_singleton, decide_eq_true_eq]
  by_cases hne : other = reference
  · exact iff_of_true (.inr hne) (.inl hne)
  · exact ⟨fun h => h.elim (fun h => .inr h.1) .inl, fun h => h.elim .inr fun h => .inl ⟨h, hne⟩⟩

-- What is dropped is earlier than the reference, and cannot be paid.
theorem mem_staleOf (other : String) (hs : other ∈ staleOf state reference given) :
    other ∈ (refsWith state reference).dropLast ∧
      payableRecord ((ordersWith state reference given).get? other) = false := by
  have hdrop := List.mem_filter.mp (List.mem_of_mem_take hs)
  exact ⟨hdrop.1, by simpa using hdrop.2⟩

theorem dropLast_refsWith : (refsWith state reference).dropLast = state.refs.filter (· ≠ reference) :=
  List.dropLast_concat

theorem reference_not_stale : reference ∉ staleOf state reference given := by
  intro hs
  have hdrop := (mem_staleOf state reference given reference hs).1
  rw [dropLast_refsWith, List.mem_filter, decide_eq_true_eq] at hdrop
  exact hdrop.2 rfl

variable (h : Matched state)

include h

theorem Matched.refsWith_nodup : (refsWith state reference).Nodup := by
  refine List.nodup_append.mpr ⟨h.nodup.filter _, List.nodup_singleton _, ?_⟩
  intro other hother last hlast
  rw [List.mem_singleton] at hlast
  rw [List.mem_filter, decide_eq_true_eq] at hother
  rw [hlast]
  exact hother.2

theorem Matched.mem_remembered (other : String) : other ∈ (rememberReference state reference given).refs ↔
    (other = reference ∨ other ∈ state.refs) ∧ other ∉ staleOf state reference given := by
  rw [rememberReference_refs, (h.refsWith_nodup state reference).mem_sdiff_iff, mem_refsWith]

theorem Matched.rememberReference : Matched (rememberReference state reference given) where
  nodup := by
    rw [rememberReference_refs]
    exact (h.refsWith_nodup state reference).diff
  recorded := by
    intro other
    rw [h.mem_remembered, ← Dict.isSome_get?, get?_rememberReference]
    by_cases hs : other ∈ staleOf state reference given
    · rw [if_pos hs]
      exact iff_of_false (fun h => h.2 hs) Bool.false_ne_true
    · rw [if_neg hs, Dict.isSome_get?, ordersWith, Dict.contains_insert, Bool.or_eq_true, beq_iff_eq,
        h.recorded other, eq_comm (a := other)]
      exact and_iff_left hs

-- Remembering keeps every reference that can be paid.
theorem Matched.remembered_payable (other : String) (hin : other ∈ state.refs) (hp : state.payable other = true) :
    other ∈ (Records.rememberReference state reference given).refs := by
  rw [h.mem_remembered]
  refine ⟨.inr hin, fun hs => ?_⟩
  have hunpaid := (mem_staleOf state reference given other hs).2
  have hne : reference ≠ other := by
    rintro rfl
    exact reference_not_stale state reference given hs
  rw [ordersWith, Dict.get?_insert, if_neg (by simpa using hne)] at hunpaid
  exact Bool.false_ne_true (hunpaid.symm.trans hp)

-- Past the maximum, all but the newest can be paid.
theorem Matched.remembered_bound :
    (Records.rememberReference state reference given).refs.length ≤ MAX_REFERENCES ∨
      ∀ kept ∈ (Records.rememberReference state reference given).refs, kept ≠ reference →
        (Records.rememberReference state reference given).payable kept = true := by
  have hsub : (staleOf state reference given).Subperm (refsWith state reference) :=
    ((List.take_sublist _ _).trans (List.filter_sublist.trans (List.dropLast_sublist _))).subperm
  have hlength : (staleOf state reference given).length +
      (Records.rememberReference state reference given).refs.length = (refsWith state reference).length := by
    rw [rememberReference_refs, ← List.length_append]
    exact (List.subperm_append_diff_self_of_count_le (List.subperm_ext_iff.mp hsub)).length_eq
  have hstale : (staleOf state reference given).length = min ((refsWith state reference).length - MAX_REFERENCES)
      (droppable (refsWith state reference) (ordersWith state reference given)).length := List.length_take
  by_cases hall : (refsWith state reference).length - MAX_REFERENCES ≤
      (droppable (refsWith state reference) (ordersWith state reference given)).length
  · exact .inl (by omega)
  · refine .inr fun kept hkept hne => ?_
    have hevery : staleOf state reference given =
        droppable (refsWith state reference) (ordersWith state reference given) :=
      List.take_of_length_le (Nat.not_le.mp hall).le
    obtain ⟨hin, hs⟩ := (h.mem_remembered state reference given kept).mp hkept
    unfold PaymentState.payable
    rw [get?_rememberReference, if_neg hs]
    by_contra hunpaid
    rw [hevery, droppable, dropLast_refsWith, List.mem_filter, List.mem_filter] at hs
    exact hs ⟨⟨hin.resolve_left hne, decide_eq_true hne⟩, by simpa using hunpaid⟩

end Remembering

section Retiring

variable (state : PaymentState)

-- The state once the current link is marked and cleared.
def retiredOf : PaymentState :=
  clearHandoff
    (match state.current with
    | some reference => setReferenceStatus state reference "failed"
    | none => state) "failed"

theorem retiredOf_refs : (retiredOf state).refs = state.refs := by
  unfold retiredOf
  split
  · exact refs_setReferenceStatus state _ _
  · rfl

theorem get?_retiredOf (other : String) (hne : some other ≠ state.current) :
    (retiredOf state).orders.get? other = state.orders.get? other := by
  unfold retiredOf
  split
  · rename_i reference hcurrent
    exact get?_setReferenceStatus state reference "failed" other fun h => hne (by rw [hcurrent, h])
  · rfl

-- The current link can be paid no more.
theorem retiredOf_current (reference : String) (hcurrent : state.current = some reference) :
    (retiredOf state).payable reference = false := by
  unfold retiredOf PaymentState.payable
  rw [hcurrent]
  show payableRecord ((setReferenceStatus state reference "failed").orders.get? reference) = false
  unfold setReferenceStatus
  split
  · rw [Dict.get?_insert_self]
    show decide ((Dict.insert _ "status" (Value.text "failed")).get? "status" = some (.text "issued")) = false
    rw [Dict.get?_insert_self]
    rfl
  · rename_i hnone
    rw [hnone]
    rfl

theorem retiredOf_payable : ((retiredOf state).refs.filter fun reference =>
    payableRecord ((retiredOf state).orders.get? reference)) = state.otherPayable := by
  rw [retiredOf_refs]
  refine List.filter_congr fun reference _ => ?_
  by_cases hcurrent : state.current = some reference
  · exact (retiredOf_current state reference hcurrent).trans (decide_eq_false fun h => h.1 hcurrent.symm).symm
  · have hne : some reference ≠ state.current := fun h => hcurrent h.symm
    rw [get?_retiredOf state reference hne, Bool.eq_iff_iff, decide_eq_true_eq]
    exact (and_iff_right hne).symm

theorem retireFailed_eq : retireFailed state =
    match state.otherPayable.getLast? with
    | none => (retiredOf state, "ready_for_complete")
    | some reference =>
        let found := ((retiredOf state).orders.get? reference).getD .empty
        ({ retiredOf state with
            handoff := some (handoffOf reference found)
            continueUrl := some (found.get "continue_url")
            messages := (retiredOf state).messages ++ [buyerMessage MODE_PLURAL_HOSTED] }, "requires_escalation") := by
  rw [← retiredOf_payable]
  rfl

theorem retireFailed_refs : (retireFailed state).1.refs = state.refs := by
  rw [retireFailed_eq]
  split <;> exact retiredOf_refs state

theorem retireFailed_orders : (retireFailed state).1.orders = (retiredOf state).orders := by
  rw [retireFailed_eq]
  split <;> rfl

-- The checkout waits for the buyer again exactly where another link can be paid.
theorem retireFailed_escalates : (retireFailed state).2 = "requires_escalation" ↔
    ∃ reference ∈ state.refs, some reference ≠ state.current ∧ state.payable reference = true := by
  have hexists : (∃ reference ∈ state.refs, some reference ≠ state.current ∧ state.payable reference = true) ↔
      state.otherPayable ≠ [] := by
    rw [PaymentState.otherPayable, Ne, List.filter_eq_nil_iff]
    simp only [decide_eq_true_eq, not_forall, not_not, exists_prop]
  rw [hexists, retireFailed_eq, Ne, ← List.getLast?_eq_none_iff]
  cases hlast : state.otherPayable.getLast? with
  | none => exact iff_of_false (by decide : ¬"ready_for_complete" = "requires_escalation") fun h => h rfl
  | some reference => exact iff_of_true rfl nofun

-- The latest of them is the hand-off then.
theorem retireFailed_broughtBack (reference : String) (hlast : state.otherPayable.getLast? = some reference) :
    BroughtBack state (retireFailed state).1 reference := by
  have hmem := List.mem_filter.mp (List.mem_of_getLast? hlast)
  rw [decide_eq_true_eq] at hmem
  obtain ⟨_, hne, hpayable⟩ := hmem
  unfold PaymentState.payable at hpayable
  cases hfound : state.orders.get? reference with
  | none =>
      rw [hfound] at hpayable
      cases hpayable
  | some found =>
      have hkept := (get?_retiredOf state reference hne).trans hfound
      obtain ⟨hreference, hstatus, hurl⟩ := get?_handoffOf reference found
      rw [retireFailed_eq, hlast]
      dsimp only
      rw [hkept]
      exact ⟨found, handoffOf reference found, hfound, rfl, hkept, hreference, hstatus, hurl, rfl⟩

theorem Matched.retiredOf (h : Matched state) : Matched (retiredOf state) := by
  unfold Records.retiredOf
  split
  · exact (h.setReferenceStatus _ "failed").clearHandoff "failed"
  · exact h.clearHandoff "failed"

theorem Matched.retireFailed (h : Matched state) : Matched (retireFailed state).1 where
  nodup := by
    rw [retireFailed_refs]
    exact h.nodup
  recorded := by
    rw [retireFailed_refs, retireFailed_orders, ← retiredOf_refs]
    exact (h.retiredOf state).recorded

end Retiring

section Runs

variable (iso : ℤ → String)

theorem Matched.step (state : PaymentState) (operation : HandoffOperation) (h : Matched state) :
    Matched (state.step iso operation) := by
  cases operation with
  | issue mode continueUrl decisionId now expiresAt extra => exact ⟨h.nodup, h.recorded⟩
  | rememberReference reference given => exact h.rememberReference state reference given
  | rememberLink handoff => exact h.rememberLink handoff
  | setReferenceStatus reference status => exact h.setReferenceStatus reference status
  | retireFailed => exact h.retireFailed state
  | clearHandoff status => exact h.clearHandoff status

theorem matched_run (operations : List HandoffOperation) : Matched (PaymentState.run iso operations) := by
  have hempty : Matched .empty := ⟨List.nodup_nil, fun reference => iff_of_false List.not_mem_nil Bool.false_ne_true⟩
  unfold PaymentState.run
  generalize PaymentState.empty = state at hempty
  induction operations generalizing state with
  | nil => exact hempty
  | cons operation rest ih => exact ih _ (hempty.step iso state operation)

theorem rememberLink_refs (state : PaymentState) (handoff : Record) : (rememberLink state handoff).refs = state.refs := by
  unfold rememberLink
  dsimp only
  split_ifs <;> rfl

-- No operation drops a reference that can be paid.
theorem Matched.step_keeps (state : PaymentState) (h : Matched state) (operation : HandoffOperation)
    (reference : String) (hin : reference ∈ state.refs) (hp : state.payable reference = true) :
    reference ∈ (state.step iso operation).refs := by
  cases operation with
  | issue mode continueUrl decisionId now expiresAt extra => exact hin
  | rememberReference other given => exact h.remembered_payable state other given reference hin hp
  | rememberLink handoff => exact (rememberLink_refs state handoff).symm ▸ hin
  | setReferenceStatus other status => exact (refs_setReferenceStatus state other status).symm ▸ hin
  | retireFailed => exact (retireFailed_refs state).symm ▸ hin
  | clearHandoff status => exact hin

theorem newest_remembered (state : PaymentState) (h : Matched state) (reference : String) (given : Record) :
    (rememberReference state reference given).refs.getLast? = some reference := by
  rw [rememberReference_refs, (h.refsWith_nodup state reference).sdiff_eq_filter, refsWith, List.filter_append,
    List.filter_singleton]
  simp [reference_not_stale state reference given]

theorem mem_keys_of_string (orders : Dict String Record) (reference : String) :
    orders.contains reference = true ↔ reference ∈ orders.keys := by
  rw [Dict.contains_iff]
  constructor
  · rintro ⟨found, hfound, hsame⟩
    exact eq_of_beq hsame ▸ hfound
  · intro hin
    exact ⟨reference, hin, beq_self_eq_true reference⟩

-- What holds of the references after any operations.
theorem references_kept (operations : List HandoffOperation) :
    (PaymentState.run iso operations).refs.Nodup ∧
      (∀ reference, reference ∈ (PaymentState.run iso operations).refs ↔
        reference ∈ (PaymentState.run iso operations).orders.keys) ∧
      (∀ operation reference, reference ∈ (PaymentState.run iso operations).refs →
        (PaymentState.run iso operations).payable reference = true →
          reference ∈ ((PaymentState.run iso operations).step iso operation).refs) ∧
      (∀ reference given,
        let later := rememberReference (PaymentState.run iso operations) reference given
        later.refs.getLast? = some reference ∧ (later.refs.length ≤ MAX_REFERENCES ∨
          ∀ kept ∈ later.refs, kept ≠ reference → later.payable kept = true)) ∧
      ((retireFailed (PaymentState.run iso operations)).2 = "requires_escalation" ↔
        ∃ reference ∈ (PaymentState.run iso operations).refs,
          some reference ≠ (PaymentState.run iso operations).current ∧
            (PaymentState.run iso operations).payable reference = true) ∧
      ∀ reference, (PaymentState.run iso operations).otherPayable.getLast? = some reference →
        BroughtBack (PaymentState.run iso operations) (retireFailed (PaymentState.run iso operations)).1
          reference := by
  have h := matched_run iso operations
  generalize PaymentState.run iso operations = state at h
  refine ⟨h.nodup, fun reference => ?_, h.step_keeps iso state, fun reference given => ?_,
    retireFailed_escalates state, retireFailed_broughtBack state⟩
  · rw [h.recorded, mem_keys_of_string]
  · exact ⟨newest_remembered state h reference given, h.remembered_bound state reference given⟩

end Runs

end AgenticOrg.Commerce.Handoff.Records
