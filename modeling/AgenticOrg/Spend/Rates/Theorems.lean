import AgenticOrg.Lib.Fallible
import AgenticOrg.Spend.Rates

namespace AgenticOrg.Spend

open Tables Fallible

section Ranges

def RateCard.Covers (card : RateCard) (date : Date) : Prop :=
  card.effectiveFrom ≤ date ∧ ∀ stop, card.effectiveTo = some stop → date < stop

instance (card : RateCard) (date : Date) : Decidable (card.Covers date) :=
  decidable_of_iff (card.effectiveFrom ≤ date ∧ before date card.effectiveTo = true) (by
    refine and_congr_right fun _ => ?_
    cases card.effectiveTo with
    | none => simp [before]
    | some stop => simp [before])

def RateCard.meets (card other : RateCard) : Bool :=
  overlaps card.effectiveFrom card.effectiveTo other.effectiveFrom other.effectiveTo

theorem meets_comm (card other : RateCard) : card.meets other = other.meets card :=
  Bool.and_comm _ _

theorem before_of_covers (card : RateCard) (date start : Date) (h : card.Covers date) (hs : start ≤ date) :
    before start card.effectiveTo = true := by
  cases ht : card.effectiveTo with
  | none => rfl
  | some stop =>
      have hlt := h.2 stop ht
      simp only [before, decide_eq_true_eq]
      exact Int.lt_of_le_of_lt hs hlt

-- Two cards in force on one date meet.
theorem meets_of_covers (card other : RateCard) (date : Date) (h : card.Covers date)
    (ho : other.Covers date) : card.meets other = true := by
  rw [RateCard.meets, overlaps, before_of_covers other date _ ho h.1, before_of_covers card date _ h ho.1]
  rfl

end Ranges

section Apart

-- No two active cards of one key meet.
def Apart (cards : Cards) : Prop :=
  ∀ card ∈ cards.rows, ∀ other ∈ cards.rows, card.id ≠ other.id →
    card.status = .active → other.status = .active → card.key = other.key → card.meets other = false

-- The new version of a card has to keep clear of the others, if it is active.
theorem Apart.modify (cards : Cards) (h : Apart cards) (id : String) (f : RateCard → RateCard)
    (hf : ∀ card, (f card).id = card.id) (hkey : ∀ card, (f card).key = card.key)
    (hclear : ∀ card ∈ cards.rows, card.id = id → (f card).status = .active →
      ∀ other ∈ cards.rows, other.id ≠ id → other.status = .active → other.key = card.key →
        (f card).meets other = false) : Apart (cards.modify id f hf) := by
  intro card hc other ho hne hca hoa hk
  obtain ⟨a, ha, hcase⟩ := Table.mem_modify cards id f hf card hc
  obtain ⟨b, hb, hcase'⟩ := Table.mem_modify cards id f hf other ho
  rcases hcase with ⟨hida, rfl⟩ | ⟨hida, rfl⟩
  · rcases hcase' with ⟨_, rfl⟩ | ⟨hidb, rfl⟩
    · exact h card ha other hb hne hca hoa hk
    · rw [meets_comm]
      exact hclear b hb hidb hoa card ha hida hca (hk.trans (hkey b))
  · rcases hcase' with ⟨hidb, rfl⟩ | ⟨hidb, rfl⟩
    · exact hclear a ha hida hca other hb hidb hoa (hk.symm.trans (hkey a))
    · rw [hf, hf] at hne
      exact absurd (hida.trans hidb.symm) hne

theorem Apart.insert (cards cards' : Cards) (h : Apart cards) (card : RateCard)
    (hi : insertCard cards card = .ok cards')
    (hclear : ∀ other ∈ cards.rows, other.status = .active → other.key = card.key →
      card.meets other = false) : Apart cards' := by
  unfold insertCard at hi
  split at hi
  · cases hi
  · rename_i hins
    cases hi
    obtain ⟨hrows, _⟩ := Table.rows_insert? cards cards' card hins
    intro a ha b hb hne haa hba hk
    rw [hrows, List.mem_append, List.mem_singleton] at ha hb
    rcases ha with ha | rfl
    · rcases hb with hb | rfl
      · exact h a ha b hb hne haa hba hk
      · rw [meets_comm]
        exact hclear a ha haa hk
    · rcases hb with hb | rfl
      · exact hclear b hb hba hk.symm
      · exact absurd rfl hne

theorem clear_of_checkOverlap (out : Outside) (cards : Cards) (key : CardKey) (effFrom : Date)
    (effTo : Option Date) (excludeId : Option String)
    (h : checkOverlap out cards key effFrom effTo excludeId = .ok ()) (other : RateCard)
    (ho : other ∈ cards.rows) (ha : other.status = .active) (hk : other.key = key)
    (hx : some other.id ≠ excludeId) :
    overlaps effFrom effTo other.effectiveFrom other.effectiveTo = false := by
  unfold checkOverlap at h
  split at h
  · rename_i hnone
    rw [List.find?_eq_none] at hnone
    have hactive : other ∈ activeCards cards key := by
      refine List.mem_filter.mpr ⟨ho, ?_⟩
      simp [ha, hk]
    have hno := hnone other hactive
    simpa [hx] using hno
  · cases h

end Apart

section Calls

variable (out : Outside)

theorem meets_closeCard (start : Date) (card other : RateCard) (ho : card.effectiveTo = none)
    (h : card.meets other = false) : (closeCard start card).meets other = false := by
  rw [RateCard.meets, ho, overlaps, before, Bool.and_true] at h
  rw [RateCard.meets, overlaps]
  exact Bool.and_eq_false_iff.mpr (.inl h)

theorem Apart.closePredecessors (key : CardKey) (start : Date) (restate : Bool)
    (previous : List RateCard) (cards : Cards) (superseded : Option String) (h : Apart cards)
    (hd : (previous.map RateCard.id).Nodup)
    (hp : ∀ card ∈ previous, card ∈ cards.rows ∧ card.status = .active)
    (cards' : Cards) (superseded' : Option String)
    (hr : closePredecessors out key start restate previous cards superseded = .ok (cards', superseded')) :
    Apart cards' := by
  induction previous generalizing cards superseded with
  | nil =>
      cases hr
      exact h
  | cons card rest ih =>
      obtain ⟨hrow, hactive⟩ := hp card List.mem_cons_self
      rw [List.map_cons, List.nodup_cons] at hd
      rw [Spend.closePredecessors] at hr
      split at hr
      · exact ih cards superseded h hd.2 (fun other ho => hp other (List.mem_cons_of_mem _ ho)) hr
      · rename_i hopen
        split at hr
        · cases hr
        · refine ih _ _ ?_ hd.2 ?_ hr
          · refine h.modify cards card.id (closeCard start) (fun _ => rfl) (fun _ => rfl) ?_
            intro found hf hid _ other ho hne ha hk
            have hsame : found = card := Table.eq_of_key cards found card hf hrow hid
            subst hsame
            refine meets_closeCard start found other ?_ ?_
            · simp only [Bool.or_eq_true, not_or] at hopen
              simpa using hopen.1
            · exact h found hf other ho (Ne.symm hne) hactive ha hk.symm
          · intro other ho
            obtain ⟨hor, hoa⟩ := hp other (List.mem_cons_of_mem _ ho)
            refine ⟨Table.mem_modify_of_ne cards card.id _ _ other hor ?_, hoa⟩
            intro he
            exact hd.1 (List.mem_map.mpr ⟨other, ho, he⟩)

theorem Apart.createIn (cards : Cards) (h : Apart cards) (newId : String) (fields : CardFields)
    (supersede restate : Bool) (cards' : Cards) (superseded : Option String)
    (hr : createIn out cards newId fields supersede restate = .ok (cards', superseded)) : Apart cards' := by
  unfold Spend.createIn at hr
  obtain ⟨⟨closed, last⟩, hclose, hr⟩ := (bind_ok _ _ _).mp hr
  obtain ⟨_, hcheck, hr⟩ := (bind_ok _ _ _).mp hr
  obtain ⟨inserted, hins, hr⟩ := (bind_ok _ _ _).mp hr
  rw [pure_ok] at hr
  cases hr
  have hclosed : Apart closed := by
    unfold supersedeOpen at hclose
    split at hclose
    · refine h.closePredecessors out fields.key fields.effectiveFrom restate _ cards none ?_ ?_ closed
        superseded hclose
      · exact cards.distinct.sublist ((List.filter_sublist).map _)
      · intro card hc
        have hm := List.mem_filter.mp hc
        simp only [Bool.and_eq_true, decide_eq_true_eq] at hm
        exact ⟨hm.1, hm.2.1⟩
    · cases hclose
      exact h
  refine hclosed.insert closed cards' _ hins ?_
  intro other ho ha hk
  exact clear_of_checkOverlap out closed fields.key _ _ none hcheck other ho ha hk (by simp)

theorem Apart.updateIn (cards : Cards) (h : Apart cards) (card : RateCard) (hc : card ∈ cards.rows)
    (body : CardChanges) (restate : Bool) (cards' : Cards) (changed : Bool)
    (hr : updateIn out cards card body restate = .ok (cards', changed)) : Apart cards' := by
  unfold Spend.updateIn at hr
  split at hr
  · cases hr
  · rename_i hactive
    have hactive : card.status = .active := not_not.mp hactive
    obtain ⟨new, _, hr⟩ := (bind_ok _ _ _).mp hr
    split at hr
    · cases hr
      exact h
    · obtain ⟨_, _, hr⟩ := (bind_ok _ _ _).mp hr
      obtain ⟨_, hcheck, hr⟩ := (bind_ok _ _ _).mp hr
      rw [pure_ok] at hr
      cases hr
      refine h.modify cards card.id new.apply (fun _ => rfl) (fun _ => rfl) ?_
      intro found hf hid hstatus other ho hne ha hk
      have hsame : found = card := Table.eq_of_key cards found card hf hc hid
      subst hsame
      have hretire : new.retire = false := by
        cases hre : new.retire with
        | false => rfl
        | true =>
            rw [CardChanges.apply, hre] at hstatus
            cases hstatus
      unfold checkMoved at hcheck
      split at hcheck
      · refine clear_of_checkOverlap out cards found.key _ _ (some found.id) hcheck other ho ha hk ?_
        intro he
        exact hne (Option.some.inj he)
      · -- neither date changes
        rename_i hdates
        simp only [hretire, Bool.not_false, Bool.true_and, Bool.or_eq_true, not_or,
          Bool.not_eq_true, Option.isSome_eq_false_iff, Option.isNone_iff_eq_none] at hdates
        have hmeets : (new.apply found).meets other = found.meets other := by
          simp only [RateCard.meets, CardChanges.apply, hdates.1, hdates.2, Option.getD_none]
        rw [hmeets]
        exact h found hf other ho (Ne.symm hne) hactive ha hk.symm

theorem mem_of_lockedCard (cards : Cards) (cardId : String) (card : RateCard)
    (h : lockedCard cards cardId = .ok card) : card ∈ cards.rows := by
  unfold lockedCard at h
  split at h
  · cases h
  · rename_i found hf
    cases h
    exact (Table.mem_of_find? cards cardId card hf).1

theorem Apart.correctCard (cards : Cards) (h : Apart cards) (newId cardId : String) (body : CardChanges)
    (cards' : Cards) (plans : List RestatePlan)
    (hr : correctCard out cards newId cardId body = .ok (cards', plans)) : Apart cards' := by
  unfold Spend.correctCard at hr
  obtain ⟨old, hlock, hr⟩ := (bind_ok _ _ _).mp hr
  have hold := mem_of_lockedCard cards cardId old hlock
  split at hr
  · cases hr
  · obtain ⟨_, _, hr⟩ := (bind_ok _ _ _).mp hr
    obtain ⟨_, _, hr⟩ := (bind_ok _ _ _).mp hr
    obtain ⟨_, hcheck, hr⟩ := (bind_ok _ _ _).mp hr
    obtain ⟨inserted, hins, hr⟩ := (bind_ok _ _ _).mp hr
    rw [pure_ok] at hr
    cases hr
    have hretired : Apart (cards.modify old.id retireCard fun _ => rfl) := by
      refine h.modify cards old.id retireCard (fun _ => rfl) (fun _ => rfl) ?_
      intro _ _ _ hstatus
      cases hstatus
    refine hretired.insert _ cards' _ hins ?_
    intro other ho ha hk
    refine clear_of_checkOverlap out _ old.key _ _ (some old.id) hcheck other ho ha hk ?_
    -- the old card is retired, so the active other one is not it
    intro he
    obtain ⟨found, _, hcase⟩ := Table.mem_modify cards old.id retireCard (fun _ => rfl) other ho
    rcases hcase with ⟨hne, rfl⟩ | ⟨_, rfl⟩
    · exact hne (Option.some.inj he)
    · cases ha

theorem Apart.importRow (cards : Cards) (h : Apart cards) (row : CheckedRow) (cards' : Cards)
    (outcome : RowOutcome) (plans : List RestatePlan)
    (hr : importRow out cards row = .ok (cards', outcome, plans)) : Apart cards' := by
  unfold Spend.importRow at hr
  split at hr
  · rename_i same hsame
    obtain ⟨⟨updated, changed⟩, hupdate, hr⟩ := (bind_ok _ _ _).mp hr
    rw [pure_ok] at hr
    cases hr
    have hrow : same ∈ cards.rows := List.mem_of_mem_filter (List.mem_of_find?_eq_some hsame)
    exact h.updateIn out cards same hrow _ _ cards' changed hupdate
  · obtain ⟨⟨created, superseded⟩, hcreate, hr⟩ := (bind_ok _ _ _).mp hr
    rw [pure_ok] at hr
    cases hr
    exact h.createIn out cards _ _ _ _ cards' superseded hcreate

theorem Apart.importRows (rows : List (Nat × CheckedRow)) (state state' : ImportState)
    (h : Apart state.cards) (hr : importRows out rows state = .ok state') : Apart state'.cards := by
  induction rows generalizing state with
  | nil =>
      cases hr
      exact h
  | cons row rest ih =>
      rw [Spend.importRows] at hr
      split at hr
      · rename_i cards outcome plans hrow
        exact ih _ (h.importRow out state.cards row.2 cards outcome plans hrow) hr
      · refine ih _ ?_ hr
        exact h
      · cases hr

-- One call keeps the active cards of every key apart.
theorem Apart.cardsAfter (cards : Cards) (h : Apart cards) (call : RateCall) (cards' : Cards)
    (hr : call.cardsAfter out cards = .ok cards') : Apart cards' := by
  cases call with
  | create newId fields supersede restate =>
      obtain ⟨result, hcreate, rfl⟩ := (map_ok _ _ _).mp hr
      unfold createCard at hcreate
      obtain ⟨_, _, hcreate⟩ := (bind_ok _ _ _).mp hcreate
      obtain ⟨_, _, hcreate⟩ := (bind_ok _ _ _).mp hcreate
      obtain ⟨⟨created, superseded⟩, hin, hcreate⟩ := (bind_ok _ _ _).mp hcreate
      rw [pure_ok] at hcreate
      rw [← hcreate]
      exact h.createIn out cards newId fields supersede restate created superseded hin
  | update cardId body restate =>
      obtain ⟨result, hupdate, rfl⟩ := (map_ok _ _ _).mp hr
      unfold updateCard at hupdate
      obtain ⟨card, hlock, hupdate⟩ := (bind_ok _ _ _).mp hupdate
      obtain ⟨⟨updated, changed⟩, hin, hupdate⟩ := (bind_ok _ _ _).mp hupdate
      rw [pure_ok] at hupdate
      rw [← hupdate]
      exact h.updateIn out cards card (mem_of_lockedCard cards cardId card hlock) body restate updated
        changed hin
  | correct newId cardId body =>
      obtain ⟨⟨corrected, plans⟩, hcorrect, rfl⟩ := (map_ok _ _ _).mp hr
      exact h.correctCard out cards newId cardId body corrected plans hcorrect
  | importFile rows dryRun =>
      obtain ⟨result, himport, rfl⟩ := (map_ok _ _ _).mp hr
      unfold importCards at himport
      obtain ⟨state, hrows, himport⟩ := (bind_ok _ _ _).mp himport
      rw [pure_ok] at himport
      rw [← himport]
      split
      · exact h
      · exact h.importRows out _ _ state hrows

end Calls

section Runs

theorem Apart.callStep (cards : Cards) (h : Apart cards) (call : Outside × RateCall) :
    Apart (callStep cards call) := by
  unfold Spend.callStep
  split
  · rename_i cards' hr
    exact h.cardsAfter call.1 cards call.2 cards' hr
  · exact h

theorem apart_cardsAfter (calls : List (Outside × RateCall)) : Apart (cardsAfter calls) := by
  have hrun : ∀ cards, Apart cards → Apart (calls.foldl callStep cards) := by
    induction calls with
    | nil => exact fun _ h => h
    | cons call rest ih => exact fun cards h => ih _ (h.callStep cards call)
  exact hrun .empty fun _ hc => absurd hc (List.not_mem_nil)

-- After any calls, two active cards of one key are never in force on one date, so for a key and
-- a date there is at most one.
theorem one_active_card (calls : List (Outside × RateCall)) :
    (∀ card ∈ (cardsAfter calls).rows, ∀ other ∈ (cardsAfter calls).rows, card.id ≠ other.id →
      card.status = .active → other.status = .active → card.key = other.key →
      ∀ date, ¬(card.Covers date ∧ other.Covers date)) ∧
    ∀ (key : CardKey) (date : Date),
      ((cardsAfter calls).rows.filter fun card =>
        card.status = .active ∧ card.key = key ∧ card.Covers date).length ≤ 1 := by
  have hapart := apart_cardsAfter calls
  have hdisjoint : ∀ card ∈ (cardsAfter calls).rows, ∀ other ∈ (cardsAfter calls).rows,
      card.id ≠ other.id → card.status = .active → other.status = .active → card.key = other.key →
      ∀ date, ¬(card.Covers date ∧ other.Covers date) := by
    intro card hc other ho hne hca hoa hk date hboth
    have hmeets := meets_of_covers card other date hboth.1 hboth.2
    rw [hapart card hc other ho hne hca hoa hk] at hmeets
    cases hmeets
  refine ⟨hdisjoint, ?_⟩
  intro key date
  refine Table.length_filter_le_one (cardsAfter calls) _ ?_
  intro card hc other ho hcp hop
  simp only [decide_eq_true_eq] at hcp hop
  by_contra hne
  exact hdisjoint card hc other ho hne hcp.1 hop.1 (hcp.2.1.trans hop.2.1.symm) date ⟨hcp.2.2, hop.2.2⟩

end Runs

end AgenticOrg.Spend
