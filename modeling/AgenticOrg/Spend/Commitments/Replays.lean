import AgenticOrg.Spend.Commitments.Theorems
import AgenticOrg.Spend.Rollups.Mirror

namespace AgenticOrg.Spend

open Tables Replay

section Purpose

variable (env : DrawEnv)

def inWindow (start : Int) (record : UsageRecord) : Bool :=
  record.dims.provider = env.provider && start ≤ record.eventTime

-- The committed records from the start of the earliest period on.
def windowRecords (state : DrawState) : List UsageRecord :=
  state.records.rows.filter (inWindow env (windowStart env state))

def earlierThan (through : Int) (key : RecordKey) : Bool := (ofLex key).1 < through

def drawnRecords (state : DrawState) (through : Int) : List UsageRecord :=
  ordered recordKey ((windowRecords env state).filter fun record => earlierThan through (recordKey record))

-- One fold from zero over the records before an instant.
def drawAll (state : DrawState) (through : Int) : DrawStates × List Assignment :=
  replay (drawRecord env (activeTerms env state)) .zero (drawnRecords env state through)

-- What is stored up to a watermark is what the fold gives.
def Faithful (state : DrawState) : Prop :=
  ∀ row ∈ activeCommitments env state, ∀ through, row.recomputedThrough = some through →
    row.drawn = (drawAll env state through).1 row.terms.id ∧
      (drawnRecords env state through).map UsageRecord.assignment = (drawAll env state through).2

def Pass.position (pass : Pass) : Int :=
  match pass.windows with
  | [] => pass.through
  | window :: _ => window.1

-- What a pass has read.
def Pass.read (pass : Pass) : RecordKey → Bool :=
  match pass.last with
  | none => earlierThan pass.position
  | some last => fun key => key ≤ last

-- A write that marks nothing adds only records that are past every watermark, and that no running pass has
-- read past.
def Unseen (state : DrawState) (record : UsageRecord) : Prop :=
  (∀ row ∈ activeCommitments env state, ∀ through, row.recomputedThrough = some through →
    through ≤ record.eventTime) ∧
    ∀ pass ∈ state.passes, pass.read (recordKey record) = false

def StepHeld (state : DrawState) : DrawStep → Prop
  | .commit k => ∀ write, state.writes[k]? = some write → flagged env state = true ∨
      (∃ row ∈ providerCommitments env state, row.terms.id ∈ write.marks) ∨
      ∀ record ∈ (writeRecords write.written state.records).2,
        inWindow env (windowStart env state) record = true → Unseen env state record
  | .start _ => flagged env state = true → state.passes = []
  | _ => True

def StepsHeld : DrawState → List DrawStep → Prop
  | _, [] => True
  | state, step :: rest =>
      StepHeld env state step ∧ ∀ next, DrawStep.after env state step = some next → StepsHeld next rest

end Purpose

section Invariant

variable (env : DrawEnv)

structure PassSound (state : DrawState) (pass : Pass) : Prop where
  terms : pass.active = activeTerms env state
  from_start : windowStart env state ≤ pass.position
  tiles : Tiles pass.position pass.windows pass.through
  within : ∀ last, pass.last = some last → ∃ window rest, pass.windows = window :: rest ∧
    window.1 ≤ (ofLex last).1 ∧ (ofLex last).1 < window.2
  upTo : UpTo env (activeTerms env state) (windowRecords env state) pass.read pass.states

structure DrawSound (state : DrawState) : Prop where
  uniform : ∀ a ∈ activeCommitments env state, ∀ b ∈ activeCommitments env state,
    a.recomputedThrough = b.recomputedThrough
  stored : ∀ row ∈ activeCommitments env state, ∀ through, row.recomputedThrough = some through →
    windowStart env state ≤ through ∧
      UpTo env (activeTerms env state) (windowRecords env state) (earlierThan through) (storedStates env state)
  passes : ∀ pass ∈ state.passes, PassSound env state pass

-- A flag asks for a full replay, and without active commitments there is nothing to replay.
def DrawSettled (state : DrawState) : Prop :=
  flagged env state = true ∨ activeCommitments env state = [] ∨ DrawSound env state

theorem earlierThan_iff (through : Int) (record : UsageRecord) :
    earlierThan through (recordKey record) = true ↔ record.eventTime < through :=
  decide_eq_true_iff

theorem earlierThan_downClosed (through : Int) : DownClosed (earlierThan through) := by
  intro a b hab hb
  simp only [earlierThan, decide_eq_true_eq] at hb ⊢
  have hle : (ofLex a).1 ≤ (ofLex b).1 := Prod.Lex.monotone_fst a b hab
  exact lt_of_le_of_lt hle hb

theorem Pass.read_downClosed (pass : Pass) : DownClosed pass.read := by
  unfold Pass.read
  split
  · exact earlierThan_downClosed _
  · intro a b hab hb
    rw [decide_eq_true_eq] at hb ⊢
    exact hab.trans hb

theorem windowRecords_nodup (state : DrawState) : ((windowRecords env state).map recordKey).Nodup := by
  have hkeys : (state.records.rows.map recordKey).Nodup := by
    have hids := state.records.distinct
    rw [List.Nodup, List.pairwise_map] at hids ⊢
    refine hids.imp ?_
    intro a b hne he
    exact hne (congrArg (fun key : RecordKey => (ofLex key).2) he)
  exact (List.filter_sublist.map recordKey).nodup hkeys

theorem mem_activeCommitments (state : DrawState) (row : Commitment) :
    row ∈ activeCommitments env state ↔
      row ∈ state.commitments.rows ∧ row.terms.provider = env.provider ∧ row.terms.status = .active := by
  simp [activeCommitments, providerCommitments, Commitment.isActive]
  tauto

theorem storedStates_of_mem (state : DrawState) (row : Commitment) (hrow : row ∈ activeCommitments env state) :
    storedStates env state row.terms.id = row.drawn := by
  unfold storedStates
  split
  · rename_i hnone
    exact absurd (decide_eq_true rfl) (List.find?_eq_none.mp hnone row hrow)
  · rename_i found hfound
    have hmem := ((mem_activeCommitments env state found).mp (List.mem_of_find?_eq_some hfound)).1
    have hid : found.terms.id = row.terms.id := by simpa using List.find?_some hfound
    rw [state.commitments.eq_of_key found row hmem ((mem_activeCommitments env state row).mp hrow).1 hid]

theorem storedStates_of_absent (state : DrawState) (id : String)
    (h : ∀ row ∈ activeCommitments env state, row.terms.id ≠ id) : storedStates env state id = .zero := by
  unfold storedStates
  split
  · rfl
  · rename_i found hfound
    exact absurd (by simpa using List.find?_some hfound) (h found (List.mem_of_find?_eq_some hfound))

-- The property follows from the invariant.
theorem DrawSound.faithful (state : DrawState) (h : DrawSound env state) : Faithful env state := by
  intro row hrow through hthrough
  obtain ⟨_, hupTo⟩ := h.stored row hrow through hthrough
  have hd := windowRecords_nodup env state
  constructor
  · rw [← storedStates_of_mem env state row hrow, hupTo.states_eq]
    rfl
  · have hdue := replay_due env (activeTerms env state) hd (earlierThan_downClosed through)
    rw [drawAll, drawnRecords, hdue]
    refine List.map_congr_left fun record hr => ?_
    rw [mem_ordered, List.mem_filter] at hr
    exact hupTo.assigned record hr.1 hr.2

end Invariant

section Frames

variable (env : DrawEnv)

-- Rows rewritten with their terms kept.
theorem providerCommitments_map (state : DrawState) (f : Commitment → Commitment)
    (hf : ∀ row, (f row).terms = row.terms) (rows : List Commitment)
    (hrows : rows = state.commitments.rows.map f) :
    rows.filter (fun row => row.terms.provider = env.provider) = (providerCommitments env state).map f := by
  rw [hrows, List.filter_map, providerCommitments]
  congr 1
  refine List.filter_congr fun row _ => ?_
  rw [Function.comp_apply, hf]

structure SameTerms (state next : DrawState) : Prop where
  active : activeTerms env next = activeTerms env state
  start : windowStart env next = windowStart env state

section Rewritten

variable (state next : DrawState) (f : Commitment → Commitment) (hf : ∀ row, (f row).terms = row.terms)
  (hrows : next.commitments.rows = state.commitments.rows.map f)

include hf hrows

theorem providerCommitments_rewritten :
    providerCommitments env next = (providerCommitments env state).map f :=
  providerCommitments_map env state f hf next.commitments.rows hrows

theorem activeCommitments_rewritten :
    activeCommitments env next = (activeCommitments env state).map f := by
  rw [activeCommitments, providerCommitments_rewritten env state next f hf hrows, List.filter_map,
    activeCommitments]
  congr 1
  refine List.filter_congr fun row _ => ?_
  rw [Function.comp_apply, Commitment.isActive, Commitment.isActive, hf]

theorem sameTerms_rewritten : SameTerms env state next where
  active := by
    rw [activeTerms, activeCommitments_rewritten env state next f hf hrows, List.map_map, activeTerms]
    exact List.map_congr_left fun row _ => hf row
  start := by
    rw [windowStart, providerCommitments_rewritten env state next f hf hrows, List.map_map, windowStart]
    congr 3
    refine List.map_congr_left fun row _ => ?_
    rw [Function.comp_apply, hf]

end Rewritten

theorem windowRecords_same (state next : DrawState) (hsame : SameTerms env state next)
    (hrecords : next.records.rows = state.records.rows) :
    windowRecords env next = windowRecords env state := by
  rw [windowRecords, hsame.start, hrecords, windowRecords]

-- What is sound of a pass does not depend on flags, watermarks and totals.
theorem PassSound.same (state next : DrawState) (pass : Pass) (h : PassSound env state pass)
    (hsame : SameTerms env state next) (hrecords : next.records.rows = state.records.rows) :
    PassSound env next pass where
  terms := h.terms.trans hsame.active.symm
  from_start := by
    rw [hsame.start]
    exact h.from_start
  tiles := h.tiles
  within := h.within
  upTo := by
    rw [hsame.active, windowRecords_same env state next hsame hrecords]
    exact h.upTo

-- The records rewritten, each drawn as before and given what it had or what is due.
structure Redrawn (state : DrawState) (f : UsageRecord → UsageRecord) : Prop where
  id : ∀ record, (f record).id = record.id
  time : ∀ record, (f record).eventTime = record.eventTime
  provider : ∀ record, (f record).dims.provider = record.dims.provider
  drawn : ∀ record ∈ windowRecords env state, ∀ states, drawRecord env (activeTerms env state) states (f record) =
    drawRecord env (activeTerms env state) states record
  assigned : ∀ record ∈ windowRecords env state, (f record).assignment = record.assignment ∨
    (f record).assignment = due env (activeTerms env state) (windowRecords env state) record

theorem Redrawn.key (state : DrawState) (f : UsageRecord → UsageRecord) (h : Redrawn env state f)
    (record : UsageRecord) : recordKey (f record) = recordKey record := by
  rw [recordKey, h.id, h.time, recordKey]

theorem Redrawn.windowRecords (state next : DrawState) (f : UsageRecord → UsageRecord) (h : Redrawn env state f)
    (hsame : SameTerms env state next) (hrecords : next.records.rows = state.records.rows.map f) :
    windowRecords env next = (Spend.windowRecords env state).map f := by
  rw [Spend.windowRecords, hsame.start, hrecords, List.filter_map, Spend.windowRecords]
  congr 1
  refine List.filter_congr fun record _ => ?_
  rw [Function.comp_apply, inWindow, inWindow, h.time, h.provider]

theorem Redrawn.upTo (state next : DrawState) (f : UsageRecord → UsageRecord) (h : Redrawn env state f)
    (hsame : SameTerms env state next) (hrecords : next.records.rows = state.records.rows.map f)
    (read : RecordKey → Bool) (states : DrawStates)
    (hup : UpTo env (activeTerms env state) (Spend.windowRecords env state) read states) :
    UpTo env (activeTerms env next) (Spend.windowRecords env next) read states := by
  rw [hsame.active, h.windowRecords env state next f hsame hrecords]
  refine upTo_map env _ states hup.states_eq f (fun record _ => h.key env state f record) h.drawn ?_
  intro record hr hread
  rcases h.assigned record hr with hold | hdue
  · rw [hold, hup.assigned record hr hread]
  · exact hdue

-- From one state to the next where no total, watermark or pass is new.
theorem DrawSound.transfer (state next : DrawState) (h : DrawSound env state) (hsame : SameTerms env state next)
    (hmarks : ∀ row ∈ activeCommitments env next, ∃ old ∈ activeCommitments env state,
      row.recomputedThrough = old.recomputedThrough)
    (hstored : storedStates env next = storedStates env state)
    (hpasses : ∀ pass ∈ next.passes, pass ∈ state.passes)
    (hup : ∀ row ∈ activeCommitments env state, ∀ through, row.recomputedThrough = some through →
      UpTo env (activeTerms env state) (windowRecords env state) (earlierThan through) (storedStates env state) →
      UpTo env (activeTerms env next) (windowRecords env next) (earlierThan through) (storedStates env state))
    (hread : ∀ pass ∈ state.passes,
      UpTo env (activeTerms env state) (windowRecords env state) pass.read pass.states →
      UpTo env (activeTerms env next) (windowRecords env next) pass.read pass.states) :
    DrawSound env next where
  uniform := by
    intro a ha b hb
    obtain ⟨oldA, hoa, hea⟩ := hmarks a ha
    obtain ⟨oldB, hob, heb⟩ := hmarks b hb
    rw [hea, heb, h.uniform oldA hoa oldB hob]
  stored := by
    intro row hrow through hthrough
    obtain ⟨old, ho, he⟩ := hmarks row hrow
    obtain ⟨hle, hupTo⟩ := h.stored old ho through (he.symm.trans hthrough)
    refine ⟨hsame.start.le.trans hle, ?_⟩
    rw [hstored]
    exact hup old ho through (he.symm.trans hthrough) hupTo
  passes := by
    intro pass hpass
    have hp := h.passes pass (hpasses pass hpass)
    exact ⟨hp.terms.trans hsame.active.symm, hsame.start.le.trans hp.from_start, hp.tiles, hp.within,
      hread pass (hpasses pass hpass) hp.upTo⟩

-- Nothing of the provider's has changed.
theorem DrawSettled.same (state next : DrawState) (h : DrawSettled env state)
    (hrows : providerCommitments env next = providerCommitments env state)
    (hrecords : next.records = state.records) (hpasses : ∀ pass ∈ next.passes, pass ∈ state.passes) :
    DrawSettled env next := by
  have hactive : activeCommitments env next = activeCommitments env state := by
    rw [activeCommitments, hrows, activeCommitments]
  have hsame : SameTerms env state next :=
    ⟨by rw [activeTerms, hactive, activeTerms], by rw [windowStart, hrows, windowStart]⟩
  have hwindow := windowRecords_same env state next hsame (by rw [hrecords])
  rcases h with hflag | hnone | hsound
  · exact .inl (by rw [flagged, hrows, ← flagged, hflag])
  · exact .inr (.inl (hactive.trans hnone))
  · refine .inr (.inr (hsound.transfer env state next hsame ?_ ?_ hpasses ?_ ?_))
    · intro row hrow
      exact ⟨row, hactive ▸ hrow, rfl⟩
    · funext id
      rw [storedStates, hactive, storedStates]
    · intro row _ through _ hup
      rw [hsame.active, hwindow]
      exact hup
    · intro pass _ hup
      rw [hsame.active, hwindow]
      exact hup

end Frames

section Writes

variable (env : DrawEnv)

theorem flagRow_terms (ids : List String) (row : Commitment) : (flagRow ids row).terms = row.terms := by
  unfold flagRow
  split <;> rfl

theorem flagRow_recomputedThrough (ids : List String) (row : Commitment) :
    (flagRow ids row).recomputedThrough = row.recomputedThrough := by
  unfold flagRow
  split <;> rfl

theorem flagRow_drawn (ids : List String) (row : Commitment) : (flagRow ids row).drawn = row.drawn := by
  unfold flagRow
  split <;> rfl

section Flags

variable (state next : DrawState) (ids : List String)
  (hrows : next.commitments.rows = state.commitments.rows.map (flagRow ids))

include hrows

theorem flagged_of_flagRows : flagged env next = true ↔
    flagged env state = true ∨ ∃ row ∈ providerCommitments env state, row.terms.id ∈ ids := by
  rw [flagged, providerCommitments_rewritten env state next _ (flagRow_terms ids) hrows, List.any_map,
    flagged, List.any_eq_true, List.any_eq_true]
  constructor
  · rintro ⟨row, hrow, hflag⟩
    rw [Function.comp_apply, flagRow] at hflag
    split at hflag
    · rename_i hid
      exact .inr ⟨row, hrow, by simpa using hid⟩
    · exact .inl ⟨row, hrow, hflag⟩
  · rintro (⟨row, hrow, hflag⟩ | ⟨row, hrow, hid⟩)
    · refine ⟨row, hrow, ?_⟩
      rw [Function.comp_apply, flagRow]
      split
      · rfl
      · exact hflag
    · refine ⟨row, hrow, ?_⟩
      rw [Function.comp_apply, flagRow, if_pos (by simpa using hid)]

theorem storedStates_flagRows : storedStates env next = storedStates env state := by
  have hactive := activeCommitments_rewritten env state next _ (flagRow_terms ids) hrows
  funext id
  by_cases hex : ∃ row ∈ activeCommitments env state, row.terms.id = id
  · obtain ⟨row, hrow, rfl⟩ := hex
    have hmem : flagRow ids row ∈ activeCommitments env next := by
      rw [hactive]
      exact List.mem_map_of_mem hrow
    have hnext := storedStates_of_mem env next _ hmem
    rw [flagRow_id, flagRow_drawn] at hnext
    rw [hnext, storedStates_of_mem env state row hrow]
  · have hne : ∀ row ∈ activeCommitments env state, row.terms.id ≠ id := fun row hrow he => hex ⟨row, hrow, he⟩
    rw [storedStates_of_absent env state id hne]
    refine storedStates_of_absent env next id fun row hrow => ?_
    rw [hactive] at hrow
    obtain ⟨old, ho, rfl⟩ := List.mem_map.mp hrow
    rw [flagRow_id]
    exact hne old ho

-- A transaction that changes records and marks commitments.
theorem DrawSound.flags (h : DrawSound env state) (hpasses : next.passes = state.passes)
    (hup : ∀ row ∈ activeCommitments env state, ∀ through, row.recomputedThrough = some through →
      UpTo env (activeTerms env state) (windowRecords env state) (earlierThan through) (storedStates env state) →
      UpTo env (activeTerms env next) (windowRecords env next) (earlierThan through) (storedStates env state))
    (hread : ∀ pass ∈ state.passes,
      UpTo env (activeTerms env state) (windowRecords env state) pass.read pass.states →
      UpTo env (activeTerms env next) (windowRecords env next) pass.read pass.states) :
    DrawSound env next := by
  refine h.transfer env state next (sameTerms_rewritten env state next _ (flagRow_terms ids) hrows) ?_
    (storedStates_flagRows env state next ids hrows) ?_ hup hread
  · intro row hrow
    rw [activeCommitments_rewritten env state next _ (flagRow_terms ids) hrows] at hrow
    obtain ⟨old, ho, rfl⟩ := List.mem_map.mp hrow
    exact ⟨old, ho, flagRow_recomputedThrough ids old⟩
  · rw [hpasses]
    exact fun pass hp => hp

end Flags

theorem DrawSettled.commit (state : DrawState) (h : DrawSettled env state) (k : ℕ) (write : Write)
    (hheld : flagged env state = true ∨
      (∃ row ∈ providerCommitments env state, row.terms.id ∈ write.marks) ∨
      ∀ record ∈ (writeRecords write.written state.records).2,
        inWindow env (windowStart env state) record = true → Unseen env state record) :
    DrawSettled env (commitWrite state k write) := by
  have hrows : (commitWrite state k write).commitments.rows =
      state.commitments.rows.map (flagRow write.marks) := rfl
  have hflag := flagged_of_flagRows env state (commitWrite state k write) write.marks hrows
  have hactive := activeCommitments_rewritten env state _ _ (flagRow_terms write.marks) hrows
  have hsame := sameTerms_rewritten env state _ _ (flagRow_terms write.marks) hrows
  rcases hheld with hf | hmark | hunseen
  · exact .inl (hflag.mpr (.inl hf))
  · exact .inl (hflag.mpr (.inr hmark))
  · rcases h with hf | hnone | hsound
    · exact .inl (hflag.mpr (.inl hf))
    · refine .inr (.inl ?_)
      rw [hactive, hnone]
      rfl
    · have hwindow : windowRecords env (commitWrite state k write) = windowRecords env state ++
          (writeRecords write.written state.records).2.filter (inWindow env (windowStart env state)) := by
        rw [windowRecords, hsame.start, commitWrite, writeRecords_rows, List.filter_append, windowRecords]
      have hnew : ∀ record ∈ (writeRecords write.written state.records).2.filter
          (inWindow env (windowStart env state)), Unseen env state record := fun record hr =>
        hunseen record (List.mem_filter.mp hr).1 (List.mem_filter.mp hr).2
      refine .inr (.inr (hsound.flags env state _ write.marks hrows rfl ?_ ?_))
      · intro row hrow through hthrough hup
        rw [hsame.active, hwindow]
        refine hup.append env _ _ (earlierThan_downClosed through) _ fun record hr => ?_
        have hle := (hnew record hr).1 row hrow through hthrough
        exact decide_eq_false (not_lt.mpr hle)
      · intro pass hpass hup
        rw [hsame.active, hwindow]
        exact hup.append env _ _ pass.read_downClosed _ fun record hr => (hnew record hr).2 pass hpass

theorem repriceRecord_frame (values : UsageRecord → Option Prices) (record : UsageRecord) :
    (repriceRecord values record).eventTime = record.eventTime ∧
      (repriceRecord values record).dims.provider = record.dims.provider ∧
      (repriceRecord values record).assignment = record.assignment := by
  unfold repriceRecord
  split <;> exact ⟨rfl, rfl, rfl⟩

-- Without a mark, either the provider's records are as they were or only quantities are drawn.
theorem redrawn_reprice (state : DrawState) (kind : Option CommitmentKind) (values : UsageRecord → Option Prices)
    (hquantity : kind ≠ some .quantity)
    (hmarks : ¬∃ row ∈ providerCommitments env state,
      row.terms.id ∈ markedIds state.commitments (repricedProviders state values) none kind) :
    Redrawn env state (repriceRecord values) where
  id := repriceRecord_id values
  time := fun record => (repriceRecord_frame values record).1
  provider := fun record => (repriceRecord_frame values record).2.1
  assigned := fun record _ => .inl (repriceRecord_frame values record).2.2
  drawn := by
    intro record hr states
    unfold repriceRecord
    split
    · rfl
    · rename_i prices hprices
      obtain ⟨hrecord, hin⟩ := List.mem_filter.mp hr
      have hprovider : record.dims.provider = env.provider := by
        simp only [inWindow, Bool.and_eq_true, decide_eq_true_eq] at hin
        exact hin.1
      have hlisted : env.provider ∈ repricedProviders state values := by
        rw [← hprovider]
        refine List.mem_map_of_mem (List.mem_filter.mpr ⟨hrecord, ?_⟩)
        rw [hprices]
        rfl
      refine drawRecord_repriced env _ ?_ states record prices
      intro terms hterms
      obtain ⟨row, hrow, rfl⟩ := List.mem_map.mp hterms
      obtain ⟨htable, hown, hstatus⟩ := (mem_activeCommitments env state row).mp hrow
      by_contra hmoney
      -- a commitment of money would have been marked
      refine hmarks ⟨row, List.mem_of_mem_filter hrow, List.mem_map_of_mem (List.mem_filter.mpr ⟨htable, ?_⟩)⟩
      simp only [marked, Commitment.isActive, hstatus, hown, Bool.and_eq_true, decide_eq_true_eq,
        List.contains_iff_mem, Option.all_none, and_true, true_and]
      refine ⟨hlisted, ?_⟩
      cases kind with
      | none => rfl
      | some kind =>
          cases kind with
          | quantity => exact absurd rfl hquantity
          | money =>
              cases hp : row.terms.pledge with
              | quantity usageType unit committed =>
                  rw [hp] at hmoney
                  exact absurd rfl hmoney
              | money usageType committed currency => rfl

theorem DrawSettled.reprice (state : DrawState) (h : DrawSettled env state) (kind : Option CommitmentKind)
    (hquantity : kind ≠ some .quantity) (values : UsageRecord → Option Prices) :
    DrawSettled env (repriceRecords state kind values) := by
  have hrows : (repriceRecords state kind values).commitments.rows = state.commitments.rows.map
      (flagRow (markedIds state.commitments (repricedProviders state values) none kind)) := rfl
  have hflag := flagged_of_flagRows env state _ _ hrows
  have hactive := activeCommitments_rewritten env state _ _ (flagRow_terms _) hrows
  have hsame := sameTerms_rewritten env state _ _ (flagRow_terms _) hrows
  by_cases hmarks : ∃ row ∈ providerCommitments env state,
      row.terms.id ∈ markedIds state.commitments (repricedProviders state values) none kind
  · exact .inl (hflag.mpr (.inr hmarks))
  · rcases h with hf | hnone | hsound
    · exact .inl (hflag.mpr (.inl hf))
    · refine .inr (.inl ?_)
      rw [hactive, hnone]
      rfl
    · have hredrawn := redrawn_reprice env state kind values hquantity hmarks
      refine .inr (.inr (hsound.flags env state _ _ hrows rfl ?_ ?_))
      · exact fun _ _ _ _ hup => hredrawn.upTo env state _ _ hsame rfl _ _ hup
      · exact fun _ _ hup => hredrawn.upTo env state _ _ hsame rfl _ _ hup

end Writes

section Changes

variable (env : DrawEnv)

-- A new commitment asks for a replay itself.
theorem DrawSettled.create (state : DrawState) (h : DrawSettled env state) (terms : Terms) (reference : String)
    (rows : Table Commitment) (hc : createCommitment state.commitments terms reference = some rows) :
    DrawSettled env { state with commitments := rows } := by
  unfold createCommitment at hc
  split at hc
  · cases hc
  · obtain ⟨hrows, _⟩ := Table.rows_insert? _ _ _ hc
    by_cases hp : terms.provider = env.provider
    · refine .inl ?_
      rw [flagged, List.any_eq_true]
      refine ⟨⟨{ terms with status := .active }, reference, .zero, none, true⟩, List.mem_filter.mpr ⟨?_, ?_⟩, rfl⟩
      · rw [hrows]
        exact List.mem_append_right _ List.mem_cons_self
      · exact decide_eq_true hp
    · refine h.same env state _ ?_ rfl fun pass hpass => hpass
      rw [providerCommitments, hrows, List.filter_append, List.filter_singleton]
      simp [hp, providerCommitments]

theorem filter_map_kept (rows : List Commitment) (id : String) (f : Commitment → Commitment)
    (hf : ∀ row ∈ rows, row.terms.id = id → (f row).terms.provider = row.terms.provider ∧
      (row.terms.provider = env.provider → f row = row)) :
    (rows.map fun row => if Keyed.key row = id then f row else row).filter
        (fun row => row.terms.provider = env.provider) =
      rows.filter fun row => row.terms.provider = env.provider := by
  induction rows with
  | nil => rfl
  | cons row rest ih =>
      rw [List.map_cons, List.filter_cons, List.filter_cons, ih fun other ho => hf other (List.mem_cons_of_mem _ ho)]
      by_cases hid : Keyed.key row = id
      · obtain ⟨hprovider, hsame⟩ := hf row List.mem_cons_self hid
        rw [if_pos hid, hprovider]
        by_cases hp : row.terms.provider = env.provider
        · rw [hsame hp]
        · simp [hp]
      · rw [if_neg hid]

-- So does a changed one.
theorem DrawSettled.update (state : DrawState) (h : DrawSettled env state) (id : String)
    (change : CommitmentChange) (rows : Table Commitment)
    (hc : updateCommitment state.commitments id change = some rows) :
    DrawSettled env { state with commitments := rows } := by
  unfold updateCommitment at hc
  split at hc
  · cases hc
  · rename_i row hfind
    obtain ⟨hrow, hid⟩ := Table.mem_of_find? _ _ _ hfind
    split at hc
    · cases hc
    · cases hc
      by_cases hown : row.terms.provider = env.provider ∧ changedRow change row ≠ row
      · refine .inl ?_
        rw [flagged, List.any_eq_true]
        refine ⟨updatedRow change row, List.mem_filter.mpr ⟨?_, ?_⟩, ?_⟩
        · exact List.mem_map.mpr ⟨row, hrow, if_pos hid⟩
        · rw [updatedRow, if_neg hown.2]
          exact decide_eq_true hown.1
        · rw [updatedRow, if_neg hown.2]
      · refine h.same env state _ ?_ rfl fun pass hpass => hpass
        -- no row of the provider's is another than it was
        have hkept : ∀ other ∈ state.commitments.rows, other.terms.id = id →
            (updatedRow change other).terms.provider = other.terms.provider ∧
              (other.terms.provider = env.provider → updatedRow change other = other) := by
          intro other ho he
          rw [state.commitments.eq_of_key other row ho hrow (he.trans hid.symm)]
          refine ⟨by unfold updatedRow; split <;> rfl, fun hp => ?_⟩
          rw [updatedRow, if_pos (not_not.mp fun hne => hown ⟨hp, hne⟩)]
        exact filter_map_kept env _ id _ hkept

end Changes

section Starts

variable (env : DrawEnv)

theorem position_of_tiles (pass : Pass) (start : Int) (h : Tiles start pass.windows pass.through) :
    pass.position = start := by
  unfold Pass.position
  cases hw : pass.windows with
  | nil =>
      rw [hw] at h
      exact h.symm
  | cons window rest =>
      rw [hw] at h
      exact h.1

theorem passFrom_position (state : DrawState) (states : DrawStates) (start stop : Int) :
    (passFrom env state states start stop).position = start :=
  position_of_tiles _ start (tiles_replayWindows env.billing start stop)

-- A pass that starts from the totals of what is before it.
theorem passSound_passFrom (state next : DrawState) (hsame : SameTerms env state next) (states : DrawStates)
    (start stop : Int) (hstart : windowStart env next ≤ start)
    (hup : UpTo env (activeTerms env next) (windowRecords env next) (earlierThan start) states) :
    PassSound env next (passFrom env state states start stop) where
  terms := hsame.active.symm
  from_start := by
    rw [passFrom_position]
    exact hstart
  tiles := by
    rw [passFrom_position]
    exact tiles_replayWindows env.billing start stop
  within := by
    intro last hlast
    cases hlast
  upTo := by
    have hread : (passFrom env state states start stop).read = earlierThan start :=
      congrArg earlierThan (passFrom_position env state states start stop)
    rw [hread]
    exact hup

theorem clearedRow_terms (row : Commitment) : (clearedRow env row).terms = row.terms := by
  unfold clearedRow
  split <;> rfl

theorem DrawSettled.startFull (state : DrawState) (h : DrawSettled env state)
    (hheld : flagged env state = true → state.passes = []) (cutoff : Int) :
    DrawSettled env (startFull env state cutoff) := by
  have hrows : (Spend.startFull env state cutoff).commitments.rows =
      state.commitments.rows.map (clearedRow env) := rfl
  have hactive := activeCommitments_rewritten env state _ _ (clearedRow_terms env) hrows
  have hsame := sameTerms_rewritten env state _ _ (clearedRow_terms env) hrows
  have hnone : ∀ row ∈ activeCommitments env (Spend.startFull env state cutoff), row.recomputedThrough = none := by
    intro row hrow
    rw [hactive] at hrow
    obtain ⟨old, ho, rfl⟩ := List.mem_map.mp hrow
    obtain ⟨_, hown, hstatus⟩ := (mem_activeCommitments env state old).mp ho
    simp [clearedRow, hown, Commitment.isActive, hstatus]
  by_cases hempty : activeCommitments env state = []
  · refine .inr (.inl ?_)
    rw [hactive, hempty]
    rfl
  · refine .inr (.inr ⟨?_, ?_, ?_⟩)
    · intro a ha b hb
      rw [hnone a ha, hnone b hb]
    · intro row hrow through hthrough
      rw [hnone row hrow] at hthrough
      cases hthrough
    · intro pass hpass
      rcases List.mem_append.mp hpass with hold | hnew
      · -- a pass that was running was sound, or the flag would have waited for it
        rcases h with hflag | hno | hsound
        · rw [hheld hflag] at hold
          cases hold
        · exact absurd hno hempty
        · exact (hsound.passes pass hold).same env state _ pass hsame rfl
      · rw [List.mem_singleton.mp hnew]
        refine passSound_passFrom env state _ hsame _ _ _ hsame.start.le (UpTo.nothing env _ ?_)
        intro record hr
        have hin := (List.mem_filter.mp hr).2
        rw [hsame.start] at hin
        simp only [inWindow, Bool.and_eq_true, decide_eq_true_eq] at hin
        exact decide_eq_false (not_lt.mpr hin.2)

theorem min?_of_all_eq (values : List Int) (value : Int) (hne : values ≠ []) (h : ∀ x ∈ values, x = value) :
    values.min?.getD 0 = value := by
  cases hmin : values.min? with
  | none => exact absurd (List.min?_eq_none_iff.mp hmin) hne
  | some least => exact h least (List.min?_mem hmin)

theorem DrawSettled.startAppend (state : DrawState) (h : DrawSettled env state) (hfull : needsFull env state = false)
    (hne : activeCommitments env state ≠ []) (cutoff : Int) :
    DrawSettled env (startAppend env state cutoff) := by
  rw [needsFull, Bool.or_eq_false_iff] at hfull
  obtain ⟨hflag, hmarks⟩ := hfull
  rcases h with hf | hno | hsound
  · rw [hflag] at hf
    cases hf
  · exact absurd hno hne
  · obtain ⟨first, hfirst⟩ := List.exists_mem_of_ne_nil _ hne
    obtain ⟨through, hthrough⟩ : ∃ through, first.recomputedThrough = some through := by
      rw [List.any_eq_false] at hmarks
      have hsome := hmarks first hfirst
      rw [Option.isNone_iff_eq_none] at hsome
      exact Option.ne_none_iff_exists'.mp hsome
    have hstart : ((activeCommitments env state).filterMap fun row => row.recomputedThrough).min?.getD 0 =
        through := by
      refine min?_of_all_eq _ through ?_ ?_
      · exact List.ne_nil_of_mem (List.mem_filterMap.mpr ⟨first, hfirst, hthrough⟩)
      · intro other ho
        obtain ⟨row, hrow, hr⟩ := List.mem_filterMap.mp ho
        rw [hsound.uniform row hrow first hfirst, hthrough] at hr
        exact (Option.some.inj hr).symm
    have hsame : SameTerms env state (Spend.startAppend env state cutoff) := ⟨rfl, rfl⟩
    refine .inr (.inr ⟨hsound.uniform, hsound.stored, ?_⟩)
    intro pass hpass
    rcases List.mem_append.mp hpass with hold | hnew
    · exact (hsound.passes pass hold).same env state _ pass hsame rfl
    · rw [List.mem_singleton.mp hnew, hstart]
      obtain ⟨hle, hup⟩ := hsound.stored first hfirst through hthrough
      exact passSound_passFrom env state _ hsame _ through cutoff hle hup

theorem DrawSettled.start (state : DrawState) (h : DrawSettled env state)
    (hheld : flagged env state = true → state.passes = []) (now : Int) :
    DrawSettled env (startPass env state now) := by
  unfold startPass
  split
  · exact h
  · rename_i hsome
    split
    · exact h.startFull env state hheld _
    · rename_i hfull
      rw [Bool.not_eq_true] at hfull
      refine h.startAppend env state hfull ?_ _
      intro hnone
      rw [needsFull, Bool.or_eq_false_iff] at hfull
      exact hsome (by simp [hnone, hfull.1])

end Starts

section Chunks

variable (env : DrawEnv)

theorem assignRecord_frame (page : List UsageRecord) (given : List Assignment) (record : UsageRecord) :
    (assignRecord page given record).eventTime = record.eventTime ∧
      (assignRecord page given record).dims.provider = record.dims.provider ∧
      ∀ terms states, drawRecord env terms states (assignRecord page given record) =
        drawRecord env terms states record := by
  unfold assignRecord
  split <;> exact ⟨rfl, rfl, fun _ _ => rfl⟩

theorem lookup_page (page : List UsageRecord) (due : UsageRecord → Assignment) (record : UsageRecord)
    (hu : ∀ row ∈ page, row.id = record.id → row = record) :
    ((page.map fun row => row.id).zip (page.map due)).lookup record.id =
      if record ∈ page then some (due record) else none := by
  induction page with
  | nil => rfl
  | cons row rest ih =>
      have hrest := ih fun other ho => hu other (List.mem_cons_of_mem _ ho)
      rw [List.map_cons, List.map_cons, List.zip_cons_cons, List.lookup_cons]
      by_cases hid : row.id = record.id
      · rw [hu row List.mem_cons_self hid]
        simp
      · have hne : record ≠ row := fun he => hid (congrArg UsageRecord.id he).symm
        have hbeq : (record.id == row.id) = false := beq_false_of_ne fun he => hid he.symm
        rw [hbeq, hrest]
        simp [List.mem_cons, hne]

theorem Pass.next_active (pass : Pass) (page : List UsageRecord) (states : DrawStates) :
    (pass.next page states).active = pass.active := by
  unfold Pass.next
  split <;> rfl

theorem Pass.next_states (pass : Pass) (page : List UsageRecord) (states : DrawStates) :
    (pass.next page states).states = states := by
  unfold Pass.next
  split <;> rfl

-- Whether a record comes next in the window.
def comesNext (window : Int × Int) (last : Option RecordKey) (record : UsageRecord) : Bool :=
  window.1 ≤ record.eventTime && record.eventTime < window.2 && last.all fun last => last < recordKey record

theorem lt_of_eventTime_lt (a b : UsageRecord) (h : a.eventTime < b.eventTime) : recordKey a < recordKey b :=
  Prod.Lex.toLex_lt_toLex.mpr (.inl h)

theorem eventTime_le_of_le (a : UsageRecord) (key : RecordKey) (h : recordKey a ≤ key) :
    a.eventTime ≤ (ofLex key).1 :=
  Prod.Lex.monotone_fst (recordKey a) key h

section Page

variable (state : DrawState) (pass : Pass) (window : Int × Int) (rest : List (Int × Int))
  (hw : pass.windows = window :: rest)

include hw

-- What has been read comes before what comes next.
theorem read_lt_next (a b : UsageRecord) (ha : pass.read (recordKey a) = true)
    (hb : comesNext window pass.last b = true) : recordKey a < recordKey b := by
  simp only [comesNext, Bool.and_eq_true, decide_eq_true_eq] at hb
  unfold Pass.read at ha
  cases hl : pass.last with
  | none =>
      rw [hl] at ha
      dsimp only at ha
      rw [Pass.position, hw, earlierThan_iff] at ha
      exact lt_of_eventTime_lt a b (ha.trans_le hb.1.1)
  | some last =>
      rw [hl] at ha hb
      exact (of_decide_eq_true ha).trans_lt (by simpa using hb.2)

variable (h : PassSound env state pass)

include h

theorem window_start : windowStart env state ≤ window.1 := by
  have hstart := h.from_start
  rw [Pass.position, hw] at hstart
  exact hstart

theorem nextPage_eq : nextPage env state.records window pass.last =
    (ordered recordKey ((windowRecords env state).filter (comesNext window pass.last))).take RECOMPUTE_CHUNK := by
  have hstart := window_start env state pass window rest hw h
  rw [nextPage, windowRecords, List.filter_filter]
  congr 2
  refine List.filter_congr fun record _ => ?_
  rw [Bool.eq_iff_iff]
  simp only [comesNext, inWindow, Bool.and_eq_true, decide_eq_true_eq]
  constructor
  · rintro ⟨⟨⟨hp, hlow⟩, hhigh⟩, hlast⟩
    exact ⟨⟨⟨hlow, hhigh⟩, hlast⟩, hp, hstart.trans hlow⟩
  · rintro ⟨⟨⟨hlow, hhigh⟩, hlast⟩, hp, _⟩
    exact ⟨⟨⟨hp, hlow⟩, hhigh⟩, hlast⟩

-- Up to the end of the window a record has been read or comes next.
theorem read_or_next (a : UsageRecord) :
    a.eventTime < window.2 ↔ pass.read (recordKey a) = true ∨ comesNext window pass.last a = true := by
  have htiles := h.tiles
  rw [hw] at htiles
  unfold Pass.read comesNext
  cases hl : pass.last with
  | none =>
      dsimp only
      rw [Pass.position, hw, earlierThan_iff]
      simp only [Option.all_none, Bool.and_true, Bool.and_eq_true, decide_eq_true_eq]
      have hlt := htiles.2.1
      omega
  | some last =>
      obtain ⟨window', rest', hw', hlow, hhigh⟩ := h.within last hl
      rw [hw] at hw'
      obtain ⟨rfl, rfl⟩ := List.cons.inj hw'
      simp only [Option.all_some, Bool.and_eq_true, decide_eq_true_eq]
      constructor
      · intro hlt
        rcases le_or_gt (recordKey a) last with hle | hgt
        · exact .inl hle
        · have hge : (ofLex last).1 ≤ a.eventTime := Prod.Lex.monotone_fst last (recordKey a) hgt.le
          exact .inr ⟨⟨hlow.trans hge, hlt⟩, hgt⟩
      · rintro (hle | hnext)
        · exact (eventTime_le_of_le a last hle).trans_lt hhigh
        · exact hnext.1.2

-- A page is what has been read next when it is done.
theorem page_split (page : List UsageRecord) (hpage : page = nextPage env state.records window pass.last)
    (states : DrawStates) :
    ∃ next : UsageRecord → Bool, page = ordered recordKey ((windowRecords env state).filter next) ∧
      (∀ row ∈ windowRecords env state, (pass.next page states).read (recordKey row) = true ↔
        pass.read (recordKey row) = true ∨ next row = true) ∧
      ∀ a b : UsageRecord, pass.read (recordKey a) = true → next b = true → recordKey a < recordKey b := by
  have hd := windowRecords_nodup env state
  have htiles := h.tiles
  rw [hw] at htiles
  rw [nextPage_eq env state pass window rest hw h] at hpage
  by_cases hshort : page.length < RECOMPUTE_CHUNK
  · refine ⟨comesNext window pass.last, ?_, ?_, read_lt_next pass window rest hw⟩
    · rw [hpage] at hshort ⊢
      rw [List.length_take] at hshort
      exact List.take_of_length_le (by omega)
    · intro row _
      have hposition : (pass.next page states).position = window.2 := by
        refine position_of_tiles _ _ ?_
        rw [Pass.next, if_pos hshort, hw]
        exact htiles.2.2
      have hread : (pass.next page states).read = earlierThan window.2 := by
        rw [← hposition, Pass.read, Pass.next, if_pos hshort]
      rw [hread, earlierThan_iff]
      exact read_or_next env state pass window rest hw h row
  · have hne : page ≠ [] := by
      rintro rfl
      exact hshort (by decide)
    obtain ⟨final, hlast⟩ : ∃ final, page.getLast? = some final := ⟨_, List.getLast?_eq_some_getLast hne⟩
    have hmem : comesNext window pass.last final = true := by
      have hin := List.mem_of_getLast? hlast
      rw [hpage] at hin
      have hfound := List.mem_of_mem_take hin
      rw [mem_ordered] at hfound
      exact (List.mem_filter.mp hfound).2
    refine ⟨fun row => comesNext window pass.last row && decide (recordKey row ≤ recordKey final),
      ?_, ?_, ?_⟩
    · have htake := take_ordered recordKey (windowRecords env state) hd (comesNext window pass.last)
        RECOMPUTE_CHUNK final (by rw [← hpage, hlast])
      rw [← hpage] at htake
      exact htake
    · intro row _
      have hread : (pass.next page states).read = fun key => decide (key ≤ recordKey final) := by
        rw [Pass.read, Pass.next, if_neg hshort, hlast]
        rfl
      rw [hread, Bool.and_eq_true, decide_eq_true_eq]
      constructor
      · intro hle
        have htime := eventTime_le_of_le row _ hle
        have hinside := (read_or_next env state pass window rest hw h _).mpr (.inr hmem)
        rcases (read_or_next env state pass window rest hw h row).mp (htime.trans_lt hinside) with hr | hn
        · exact .inl hr
        · exact .inr ⟨hn, hle⟩
      · rintro (hr | hn)
        · exact (read_lt_next pass window rest hw row _ hr hmem).le
        · exact hn.2
    · intro a b ha hb
      rw [Bool.and_eq_true] at hb
      exact read_lt_next pass window rest hw a b ha hb.1

-- Where a pass is after a page.
theorem next_shape (page : List UsageRecord) (hpage : page = nextPage env state.records window pass.last)
    (states : DrawStates) :
    windowStart env state ≤ (pass.next page states).position ∧
      Tiles (pass.next page states).position (pass.next page states).windows (pass.next page states).through ∧
      ∀ last, (pass.next page states).last = some last → ∃ window rest,
        (pass.next page states).windows = window :: rest ∧ window.1 ≤ (ofLex last).1 ∧
          (ofLex last).1 < window.2 := by
  have htiles := h.tiles
  have hstart := window_start env state pass window rest hw h
  rw [hw] at htiles
  by_cases hshort : page.length < RECOMPUTE_CHUNK
  · have hafter : Tiles window.2 (pass.next page states).windows (pass.next page states).through := by
      rw [Pass.next, if_pos hshort, hw]
      exact htiles.2.2
    rw [position_of_tiles _ _ hafter]
    refine ⟨hstart.trans htiles.2.1.le, hafter, ?_⟩
    intro last hlast
    rw [Pass.next, if_pos hshort] at hlast
    cases hlast
  · have hsame : (pass.next page states).position = pass.position := by
      rw [Pass.next, if_neg hshort]
      rfl
    have hwindows : (pass.next page states).windows = pass.windows := by
      rw [Pass.next, if_neg hshort]
    have hthrough : (pass.next page states).through = pass.through := by
      rw [Pass.next, if_neg hshort]
    rw [hsame, hwindows, hthrough]
    refine ⟨h.from_start, h.tiles, ?_⟩
    intro last hlast
    refine ⟨window, rest, hw, ?_⟩
    rw [Pass.next, if_neg hshort] at hlast
    obtain ⟨record, hrecord, rfl⟩ := Option.map_eq_some_iff.mp hlast
    have hin := List.mem_of_getLast? hrecord
    rw [hpage, nextPage_eq env state pass window rest hw h] at hin
    have hfound := List.mem_of_mem_take hin
    rw [mem_ordered, List.mem_filter] at hfound
    have hnext := hfound.2
    simp only [comesNext, Bool.and_eq_true, decide_eq_true_eq] at hnext
    exact hnext.1

end Page

theorem DrawSettled.chunk (state : DrawState) (h : DrawSettled env state) (k : ℕ) (pass : Pass)
    (hk : state.passes[k]? = some pass) (window : Int × Int) (hwindow : pass.windows.head? = some window) :
    DrawSettled env (replayChunk env state k pass window) := by
  rcases h with hflag | hnone | hsound
  · exact .inl hflag
  · exact .inr (.inl hnone)
  obtain ⟨rest, hw⟩ : ∃ rest, pass.windows = window :: rest := List.head?_eq_some_iff.mp hwindow
  have hp := hsound.passes pass (List.mem_of_getElem? hk)
  have hd := windowRecords_nodup env state
  have hsame : SameTerms env state (replayChunk env state k pass window) := ⟨rfl, rfl⟩
  set page := nextPage env state.records window pass.last with hpage
  set drawn := replay (drawRecord env pass.active) pass.states page with hdrawn
  obtain ⟨next, hnext, hboth, hlt⟩ := page_split env state pass window rest hw hp page hpage drawn.1
  obtain ⟨hstates, hgiven⟩ := hp.upTo.page env _ hd _ (pass.next page drawn.1).read pass.read_downClosed
    (Pass.read_downClosed _) next hboth fun a _ b _ => hlt a b
  rw [← hnext, ← hp.terms, ← hdrawn] at hstates hgiven
  rw [hp.terms] at hstates hgiven
  -- each record of the page gets what is due
  have hassigned : ∀ record ∈ windowRecords env state, (record ∈ page ∧
      (assignRecord page drawn.2 record).assignment = due env (activeTerms env state) (windowRecords env state) record) ∨
      (record ∉ page ∧ (assignRecord page drawn.2 record).assignment = record.assignment) := by
    intro record hr
    have hlook := lookup_page page (due env (activeTerms env state) (windowRecords env state)) record ?_
    · rw [← hgiven] at hlook
      unfold assignRecord
      rw [hlook]
      by_cases hin : record ∈ page
      · rw [if_pos hin]
        exact .inl ⟨hin, rfl⟩
      · rw [if_neg hin]
        exact .inr ⟨hin, rfl⟩
    · intro row hrow hid
      rw [hnext, mem_ordered] at hrow
      exact state.records.eq_of_key row record (List.mem_of_mem_filter (List.mem_of_mem_filter hrow))
        (List.mem_of_mem_filter hr) hid
  have hredrawn : Redrawn env state (assignRecord page drawn.2) :=
    { id := assignRecord_id page drawn.2
      time := fun record => (assignRecord_frame env page drawn.2 record).1
      provider := fun record => (assignRecord_frame env page drawn.2 record).2.1
      drawn := fun record _ => (assignRecord_frame env page drawn.2 record).2.2 _
      assigned := fun record hr => (hassigned record hr).elim (fun h => .inr h.2) fun h => .inl h.2 }
  refine .inr (.inr ⟨hsound.uniform, ?_, ?_⟩)
  · intro row hrow through hthrough
    obtain ⟨hle, hup⟩ := hsound.stored row hrow through hthrough
    exact ⟨hle, hredrawn.upTo env state _ _ hsame rfl _ _ hup⟩
  · intro other hother
    rcases List.mem_or_eq_of_mem_set hother with hold | rfl
    · have ho := hsound.passes other hold
      exact ⟨ho.terms, ho.from_start, ho.tiles, ho.within, hredrawn.upTo env state _ _ hsame rfl _ _ ho.upTo⟩
    · obtain ⟨hstart, htiles, hwithin⟩ := next_shape env state pass window rest hw hp page hpage drawn.1
      refine ⟨?_, hstart, htiles, hwithin, ?_⟩
      · rw [Pass.next_active, hsame.active, hp.terms]
      · rw [hsame.active, hredrawn.windowRecords env state _ _ hsame rfl, Pass.next_states]
        refine upTo_map env _ _ hstates _ (fun record _ => hredrawn.key env state _ record) hredrawn.drawn ?_
        intro record hr hread
        rcases hassigned record hr with ⟨_, hdue⟩ | ⟨hout, hkept⟩
        · exact hdue
        · rw [hkept]
          rcases (hboth record hr).mp hread with hbefore | hnew
          · exact hp.upTo.assigned record hr hbefore
          · refine absurd ?_ hout
            rw [hnext, mem_ordered]
            exact List.mem_filter.mpr ⟨hr, hnew⟩

end Chunks

section Finishes

variable (env : DrawEnv)

theorem finishedRow_terms (pass : Pass) (row : Commitment) : (finishedRow env pass row).terms = row.terms := by
  unfold finishedRow
  split <;> rfl

theorem finishedRow_of_active (state : DrawState) (pass : Pass) (hterms : pass.active = activeTerms env state)
    (row : Commitment) (hrow : row ∈ activeCommitments env state) :
    finishedRow env pass row =
      { row with drawn := pass.states row.terms.id, recomputedThrough := some pass.through } := by
  have hown := ((mem_activeCommitments env state row).mp hrow).2.1
  rw [finishedRow, if_pos]
  rw [Bool.and_eq_true, decide_eq_true_eq, List.contains_iff_mem, hterms]
  exact ⟨hown, List.mem_map_of_mem (List.mem_map_of_mem hrow)⟩

theorem DrawSettled.finish (state : DrawState) (h : DrawSettled env state) (k : ℕ) (pass : Pass)
    (hk : state.passes[k]? = some pass) (hwindows : pass.windows = []) :
    DrawSettled env (finishPass env state k pass) := by
  have hrows : (finishPass env state k pass).commitments.rows = state.commitments.rows.map (finishedRow env pass) :=
    rfl
  have hprovider := providerCommitments_rewritten env state _ _ (finishedRow_terms env pass) hrows
  have hactive := activeCommitments_rewritten env state _ _ (finishedRow_terms env pass) hrows
  have hsame := sameTerms_rewritten env state _ _ (finishedRow_terms env pass) hrows
  rcases h with hflag | hnone | hsound
  · refine .inl ?_
    have hkept : ((fun row => row.needsFullRecompute) ∘ finishedRow env pass) =
        fun row : Commitment => row.needsFullRecompute := by
      funext row
      rw [Function.comp_apply, finishedRow]
      split <;> rfl
    rw [flagged, hprovider, List.any_map, hkept]
    exact hflag
  · refine .inr (.inl ?_)
    rw [hactive, hnone]
    rfl
  have hp := hsound.passes pass (List.mem_of_getElem? hk)
  have hposition : pass.position = pass.through := by rw [Pass.position, hwindows]
  have hread : pass.read = earlierThan pass.through := by
    cases hl : pass.last with
    | none => rw [Pass.read, hl, ← hposition]
    | some last =>
        obtain ⟨window, rest, hw, _⟩ := hp.within last hl
        rw [hwindows] at hw
        cases hw
  have hwritten : ∀ row ∈ activeCommitments env (finishPass env state k pass),
      row.recomputedThrough = some pass.through ∧ row.drawn = pass.states row.terms.id := by
    intro row hrow
    rw [hactive] at hrow
    obtain ⟨old, ho, rfl⟩ := List.mem_map.mp hrow
    rw [finishedRow_of_active env state pass hp.terms old ho]
    exact ⟨rfl, rfl⟩
  have hstored : storedStates env (finishPass env state k pass) = pass.states := by
    funext id
    by_cases hex : ∃ row ∈ activeCommitments env (finishPass env state k pass), row.terms.id = id
    · obtain ⟨row, hrow, rfl⟩ := hex
      rw [storedStates_of_mem env _ row hrow, (hwritten row hrow).2]
    · have hne : ∀ row ∈ activeCommitments env (finishPass env state k pass), row.terms.id ≠ id :=
        fun row hrow he => hex ⟨row, hrow, he⟩
      rw [storedStates_of_absent env _ id hne, hp.upTo.untouched env _ _ id]
      intro terms hterms
      rw [← hsame.active] at hterms
      obtain ⟨row, hrow, rfl⟩ := List.mem_map.mp hterms
      exact hne row hrow
  refine .inr (.inr ⟨?_, ?_, ?_⟩)
  · intro a ha b hb
    rw [(hwritten a ha).1, (hwritten b hb).1]
  · intro row hrow through hthrough
    have he : through = pass.through := Option.some.inj (hthrough.symm.trans (hwritten row hrow).1)
    rw [he, hstored, hsame.active, hsame.start, windowRecords_same env state _ hsame rfl, ← hread, ← hposition]
    exact ⟨hp.from_start, hp.upTo⟩
  · intro other hother
    exact (hsound.passes other (List.mem_of_mem_eraseIdx hother)).same env state _ other hsame rfl

end Finishes

section Runs

variable (env : DrawEnv)

theorem drawSettled_empty : DrawSettled env .empty := .inr (.inl rfl)

theorem DrawSettled.after (state : DrawState) (h : DrawSettled env state) (step : DrawStep)
    (hheld : StepHeld env state step) (next : DrawState) (hstep : DrawStep.after env state step = some next) :
    DrawSettled env next := by
  cases step with
  | write stamp rows =>
      cases hstep
      exact h.same env state _ rfl rfl fun pass hp => hp
  | commit k =>
      obtain ⟨write, hwrite, rfl⟩ := Option.map_eq_some_iff.mp hstep
      exact h.commit env state k write (hheld write hwrite)
  | create terms reference =>
      obtain ⟨rows, hrows, rfl⟩ := Option.map_eq_some_iff.mp hstep
      exact h.create env state terms reference rows hrows
  | update id change =>
      obtain ⟨rows, hrows, rfl⟩ := Option.map_eq_some_iff.mp hstep
      exact h.update env state id change rows hrows
  | restate values =>
      cases hstep
      exact h.reprice env state none (by simp) values
  | settleFx values =>
      cases hstep
      exact h.reprice env state (some .money) (by simp) values
  | start now =>
      cases hstep
      exact h.start env state hheld now
  | chunk k =>
      obtain ⟨pass, hk, hstep⟩ := Option.bind_eq_some_iff.mp hstep
      obtain ⟨window, hwindow, rfl⟩ := Option.map_eq_some_iff.mp hstep
      exact h.chunk env state k pass hk window hwindow
  | finish k =>
      obtain ⟨pass, hk, hstep⟩ := Option.bind_eq_some_iff.mp hstep
      split at hstep
      · rename_i hempty
        cases hstep
        exact h.finish env state k pass hk (List.isEmpty_iff.mp hempty)
      · cases hstep
  | abort k =>
      rw [DrawStep.after] at hstep
      split at hstep
      · cases hstep
        exact h.same env state _ rfl rfl fun pass hp => List.mem_of_mem_eraseIdx hp
      · cases hstep

theorem DrawSettled.run (steps front : List DrawStep) (hf : front <+: steps) (state last : DrawState)
    (h : DrawSettled env state) (hheld : StepsHeld env state steps)
    (hlast : front.foldlM (DrawStep.after env) state = some last) : DrawSettled env last := by
  induction front generalizing steps state with
  | nil =>
      cases hlast
      exact h
  | cons step front ih =>
      obtain ⟨rest, rfl⟩ := hf
      rw [List.foldlM_cons] at hlast
      obtain ⟨next, hnext, hlast⟩ := Option.bind_eq_some_iff.mp hlast
      exact ih (front ++ rest) (List.prefix_append _ _) next (h.after env state step hheld.1 next hnext)
        (hheld.2 next hnext) hlast

theorem flagged_finishPass (state : DrawState) (k : ℕ) (pass : Pass) :
    flagged env (finishPass env state k pass) = flagged env state := by
  have hkept : ((fun row => row.needsFullRecompute) ∘ finishedRow env pass) =
      fun row : Commitment => row.needsFullRecompute := by
    funext row
    rw [Function.comp_apply, finishedRow]
    split <;> rfl
  rw [flagged, providerCommitments_rewritten env state _ _ (finishedRow_terms env pass) rfl, List.any_map, hkept,
    flagged]

-- A pass that ends with no flag set has moved every watermark to where it ended.
theorem DrawSettled.finished (state : DrawState) (h : DrawSettled env state) (k : ℕ) (pass : Pass)
    (hk : state.passes[k]? = some pass) (hflag : flagged env (finishPass env state k pass) = false)
    (row : Commitment) (hrow : row ∈ activeCommitments env (finishPass env state k pass)) :
    row.recomputedThrough = some pass.through := by
  rw [activeCommitments_rewritten env state _ _ (finishedRow_terms env pass) rfl] at hrow
  obtain ⟨old, ho, rfl⟩ := List.mem_map.mp hrow
  rcases h with hf | hnone | hsound
  · rw [flagged_finishPass, hf] at hflag
    cases hflag
  · rw [hnone] at ho
    cases ho
  · rw [finishedRow_of_active env state pass (hsound.passes pass (List.mem_of_getElem? hk)).terms old ho]

-- In a run whose steps all meet the condition, wherever no flag is set the totals and the records up to the
-- watermark are those of one fold; and a pass that has ended with no flag set has left no commitment without one.
theorem drawdown_faithful (steps front : List DrawStep) (hf : front <+: steps) (h : StepsHeld env .empty steps)
    (state : DrawState) (hs : drawAfter env front = some state) (hflag : flagged env state = false) :
    Faithful env state ∧ ∀ k, front.getLast? = some (.finish k) →
      ∀ row ∈ activeCommitments env state, row.recomputedThrough ≠ none := by
  constructor
  · rcases DrawSettled.run env steps front hf .empty state (drawSettled_empty env) h hs with hset | hnone | hsound
    · rw [hflag] at hset
      cases hset
    · intro row hrow
      rw [hnone] at hrow
      cases hrow
    · exact hsound.faithful env state
  · intro k hk row hrow
    obtain ⟨before, rfl⟩ := List.getLast?_eq_some_iff.mp hk
    rw [drawAfter, List.foldlM_append] at hs
    obtain ⟨old, hold, hs⟩ := Option.bind_eq_some_iff.mp hs
    have hprefix : before <+: steps := (List.prefix_append _ _).trans hf
    have hsettled := DrawSettled.run env steps before hprefix .empty old (drawSettled_empty env) h hold
    rw [List.foldlM_cons] at hs
    obtain ⟨next, hnext, hs⟩ := Option.bind_eq_some_iff.mp hs
    cases hs
    obtain ⟨pass, hpass, hnext⟩ := Option.bind_eq_some_iff.mp hnext
    split at hnext
    · cases hnext
      rw [hsettled.finished env old k pass hpass hflag row hrow]
      exact Option.some_ne_none _
    · cases hnext

end Runs

section Sample

def utc : Calendar where
  dayStart := fun day => day * DAY_MICROSECONDS
  dateOf := fun moment => moment / DAY_MICROSECONDS
  dayStart_le := by
    intro day
    unfold DAY_MICROSECONDS
    omega
  dateOf_bounds := by
    intro moment
    unfold DAY_MICROSECONDS
    omega

def openai : DrawEnv := ⟨"openai", utc, fun text => text, fun _ _ => none⟩

-- Ten days of input tokens.
def tokenTerms : Terms :=
  ⟨"c1", "openai", "", .quantity "llm_tokens" .inputTokens1m 1000000, 0, 10, .active⟩

-- Ten in the morning of the second day.
def TEN : Int := DAY_MICROSECONDS + 36000000000

-- A call that was over a second after eight.
def tokenRecord : UsageRecord where
  id := "r1"
  eventTime := TEN - 7199000000
  eventDate := 1
  dims :=
    { billingDate := 1, orgNodeId := none, businessUnitNodeId := none, attributionPath := none,
      unattributedReason := none, productLine := none, useCase := "", application := "agents", agentId := none,
      provider := "openai", model := "", usageType := "llm_tokens", unit := "input_token", currency := none,
      rateCardId := none, priceSource := "none", commitmentId := none, billingAccount := none, region := none,
      environment := "", riskTier := none }
  quantity := 5000000
  calls := true
  amount := none
  amountInr := none
  unpriced := true
  unconverted := false
  fxEstimated := false
  overage := false
  overageQuantity := 0
  allocated := false
  quantityEstimated := false
  priceEstimated := false

def startTimes (steps : List DrawStep) : List Int :=
  steps.filterMap fun step =>
    match step with
    | .start now => some now
    | _ => none

-- The write has its stamp from ten, a pass that starts two seconds later has ended when it inserts.
def overtakenRun : List DrawStep :=
  [.create tokenTerms "", .start (TEN + 2000000), .chunk 0, .chunk 0, .finish 0, .write TEN [tokenRecord],
    .commit 0, .start (TEN + 3600000000), .chunk 0, .finish 0]

def drawnNothing (state : DrawState) : Bool :=
  !flagged openai state && (activeCommitments openai state).any fun row =>
    row.recomputedThrough = some (TEN - 3600000000) &&
      (drawnRecords openai state (TEN - 3600000000)).map (fun record => record.assignment.commitmentId) = [none] &&
      (drawAll openai state (TEN - 3600000000)).2.map (fun given => given.commitmentId) = [some "c1"]

theorem reached_of_any (env : DrawEnv) (steps : List DrawStep) (test : DrawState → Bool)
    (h : (drawAfter env steps).any test = true) : ∃ state, drawAfter env steps = some state ∧ test state = true := by
  cases hs : drawAfter env steps with
  | none =>
      rw [hs] at h
      cases h
  | some state =>
      rw [hs] at h
      exact ⟨state, rfl, h⟩

-- The record is below the watermark, nothing is flagged, and it is not drawn.
theorem overtaken_record_undrawn :
    (startTimes overtakenRun).Pairwise (· < ·) ∧ overtakenRun.getLast? = some (.finish 0) ∧
      ∃ state, drawAfter openai overtakenRun = some state ∧ flagged openai state = false ∧
        ¬Faithful openai state := by
  have hrun : (drawAfter openai overtakenRun).any drawnNothing = true := by decide +kernel
  refine ⟨by decide +kernel, rfl, ?_⟩
  obtain ⟨state, hstate, hnothing⟩ := reached_of_any openai _ _ hrun
  rw [drawnNothing, Bool.and_eq_true, List.any_eq_true] at hnothing
  obtain ⟨hflag, row, hrow, hdrawn⟩ := hnothing
  simp only [Bool.and_eq_true, decide_eq_true_eq] at hdrawn
  obtain ⟨⟨hthrough, hkept⟩, hgiven⟩ := hdrawn
  refine ⟨state, hstate, by simpa using hflag, fun hfaithful => ?_⟩
  have hsame := congrArg (List.map fun given => given.commitmentId) (hfaithful row hrow _ hthrough).2
  rw [List.map_map, hgiven] at hsame
  exact absurd (hkept.symm.trans hsame) (by decide)

-- The record is there before the first pass.
def drawnRun : List DrawStep :=
  [.create tokenTerms "", .write TEN [tokenRecord], .commit 0, .start (TEN + 2000000), .chunk 0, .chunk 0, .finish 0]

theorem drawdown_faithful_drawn :
    ∃ state, drawAfter openai drawnRun = some state ∧ flagged openai state = false ∧ Faithful openai state := by
  have hrun : (drawAfter openai drawnRun).any (fun state => !flagged openai state) = true := by decide +kernel
  obtain ⟨state, hstate, hflag⟩ := reached_of_any openai _ _ hrun
  have hflagged : flagged openai state = false := by simpa using hflag
  refine ⟨state, hstate, hflagged, ?_⟩
  refine (drawdown_faithful openai drawnRun drawnRun (List.prefix_refl _) ?_ state hstate hflagged).1
  refine ⟨trivial, fun created hcreated => ⟨trivial, fun written hwritten => ⟨?_, ?_⟩⟩⟩
  · intro write _
    have hset : (drawAfter openai [.create tokenTerms "", .write TEN [tokenRecord]]).any (flagged openai) = true := by
      decide +kernel
    obtain ⟨other, hother, hflag⟩ := reached_of_any openai _ _ hset
    have hreach : drawAfter openai [.create tokenTerms "", .write TEN [tokenRecord]] = some written := by
      simp [drawAfter, hcreated, hwritten]
    rw [Option.some.inj (hreach.symm.trans hother)]
    exact .inl hflag
  · intro committed hcommitted
    refine ⟨fun _ => ?_, fun _ _ => ⟨trivial, fun _ _ => ⟨trivial, fun _ _ => ⟨trivial, fun _ _ => trivial⟩⟩⟩⟩
    have hnone : (drawAfter openai [.create tokenTerms "", .write TEN [tokenRecord], .commit 0]).any
        (fun state => state.passes.isEmpty) = true := by decide +kernel
    obtain ⟨other, hother, hempty⟩ := reached_of_any openai _ _ hnone
    have hreach : drawAfter openai [.create tokenTerms "", .write TEN [tokenRecord], .commit 0] = some committed := by
      simp [drawAfter, hcreated, hwritten, hcommitted]
    rw [Option.some.inj (hreach.symm.trans hother)]
    exact List.isEmpty_iff.mp hempty

end Sample

end AgenticOrg.Spend
