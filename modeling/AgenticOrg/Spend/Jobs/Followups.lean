import AgenticOrg.Spend.Jobs.Theorems

namespace AgenticOrg.Spend

open Fallible

section Work

-- How a job reads the texts of its parameters: `norm_provider`, `norm_currency`, `parse_date` and `UUID`.
structure JobReading where
  provider : String → String
  currency : String → String
  date : String → Option Date
  card : String → String

-- What the jobs look at in a stored record.
structure StoredUsage where
  provider : String
  billingDay : Date
  eventDate : Date
  rateCardId : Option String
  blendCardId : Option String
  priceSource : String
  fxEstimated : Bool
  unconverted : Bool
  currency : Option String
  fxRateDate : Option Date

def UNPRICED_SOURCES : List String := ["none", "fallback_list", "fallback_override"]

-- The selectors of `restate`: without any, every record of the provider's days.
def restateSelectors (reading : JobReading) (params : JobParams) : List (StoredUsage → Bool) :=
  let cards := params.cardIds.map reading.card
  (if cards = [] then []
    else [fun row => row.rateCardId.any cards.contains, fun row => row.blendCardId.any cards.contains]) ++
  (if params.includeUnpriced then [fun row => UNPRICED_SOURCES.contains row.priceSource] else [])

def restateConsiders (reading : JobReading) (params : JobParams) (row : StoredUsage) : Bool :=
  let selectors := restateSelectors reading params
  row.provider == reading.provider (params.provider.getD "") && params.inSpan row.billingDay &&
    (selectors.isEmpty || selectors.any fun selector => selector row)

-- The forced pairs of `settle_fx`.
def forcedPairs (reading : JobReading) (params : JobParams) : List (String × Option Date) :=
  params.forceDates.map fun pair => (reading.currency pair.1, reading.date pair.2)

def settleConsiders (reading : JobReading) (params : JobParams) (row : StoredUsage) : Bool :=
  params.inSpan row.eventDate &&
    (row.fxEstimated || row.unconverted ||
      (forcedPairs reading params).any fun pair =>
        row.currency == some pair.1 && pair.2.isSome && row.fxRateDate == pair.2)

-- The providers `recompute` replays the commitments of.
def recomputes (reading : JobReading) (params : JobParams) (provider : String) : Bool :=
  match params.named with
  | none => true
  | some name => provider == reading.provider name

-- The follow-ups merged one after another into the first.
def mergeAll (texts : JobTexts) (kind : JobKind) (queued : JobParams) :
    List JobParams → Except Failure (Option JobParams)
  | [] => .ok (some queued)
  | new :: later => do
      match ← mergeParams texts kind queued new with
      | none => pure none
      | some merged => mergeAll texts kind merged later

end Work

section Selecting

variable (reading : JobReading)

theorem restateConsiders_iff (params : JobParams) (row : StoredUsage) :
    restateConsiders reading params row = true ↔
      row.provider = reading.provider (params.provider.getD "") ∧ params.inSpan row.billingDay = true ∧
        (params.everything = true ∨
          (∃ card ∈ params.cardIds,
            row.rateCardId = some (reading.card card) ∨ row.blendCardId = some (reading.card card)) ∨
          params.includeUnpriced = true ∧ row.priceSource ∈ UNPRICED_SOURCES) := by
  unfold restateConsiders restateSelectors JobParams.everything
  rw [Bool.and_eq_true, Bool.and_eq_true, beq_iff_eq, and_assoc]
  refine and_congr Iff.rfl (and_congr Iff.rfl ?_)
  cases hcards : params.cardIds with
  | nil => cases params.includeUnpriced <;> simp
  | cons card cards =>
      have hany : ∀ held : Option String, held.any ((card :: cards).map reading.card).contains = true ↔
          ∃ other ∈ card :: cards, held = some (reading.card other) := by
        intro held
        cases held with
        | none => simp
        | some id =>
            simp only [Option.any_some, List.contains_iff_mem, List.mem_map, Option.some.injEq, @eq_comm _ id]
      cases params.includeUnpriced with
      | false =>
          simp only [List.map_cons, reduceCtorEq, if_false, List.append_nil, List.isEmpty_cons, Bool.false_or,
            List.any_cons, List.any_nil, Bool.or_false, Bool.or_eq_true, false_and, or_false,
            Bool.false_and, false_or, Bool.false_eq_true]
          rw [← List.map_cons, hany, hany, ← exists_or]
          simp only [← and_or_left]
      | true =>
          simp only [List.map_cons, reduceCtorEq, if_false, if_true, List.cons_append, List.nil_append,
            List.isEmpty_cons, Bool.false_or, List.any_cons, List.any_nil, Bool.or_false, Bool.or_eq_true,
            true_and, Bool.false_and, false_or, Bool.false_eq_true, List.contains_iff_mem]
          rw [← List.map_cons, hany, hany, ← or_assoc, ← exists_or]
          simp only [← and_or_left]

theorem mergeRestate_considers (texts : JobTexts) (queued new part : JobParams) (joined : Date × Date)
    (hprovider : queued.provider.getD "" = new.provider.getD "") (hspan : span queued new = .ok (some joined))
    (hpart : part = queued ∨ part = new) (row : StoredUsage) (hrow : restateConsiders reading part row = true) :
    restateConsiders reading (mergeRestate texts queued new joined) row = true := by
  rw [restateConsiders_iff] at hrow ⊢
  obtain ⟨hname, hday, hselected⟩ := hrow
  refine ⟨?_, ?_, ?_⟩
  · rcases hpart with rfl | rfl
    · exact hname
    · exact hname.trans (congrArg reading.provider hprovider.symm)
  · refine span_covers queued new (mergeRestate texts queued new joined) joined hspan rfl rfl _ ?_
    rcases hpart with rfl | rfl
    · exact .inl hday
    · exact .inr hday
  · by_cases hall : (queued.everything || new.everything) = true
    · exact .inl (mergeRestate_everything texts queued new joined hall)
    · obtain ⟨hwhole, hcards, hunpriced⟩ := mergeRestate_selectors texts queued new joined hall part hpart
      rcases hselected with heverything | ⟨card, hcard, hheld⟩ | ⟨hinclude, hsource⟩
      · exact absurd heverything hwhole
      · exact .inr (.inl ⟨card, hcards card hcard, hheld⟩)
      · exact .inr (.inr ⟨hunpriced hinclude, hsource⟩)

theorem mergeSettle_forced (queued new part : JobParams) (joined : Date × Date)
    (hpart : part = queued ∨ part = new) :
    ∀ pair ∈ forcedPairs reading part, pair ∈ forcedPairs reading (mergeSettle queued new joined) := by
  intro pair hpair
  obtain ⟨texts, htexts, rfl⟩ := List.mem_map.mp hpair
  refine List.mem_map.mpr ⟨texts, (mergeSettle_forceDates queued new joined texts).mpr ?_, rfl⟩
  rcases hpart with rfl | rfl
  · exact .inl htexts
  · exact .inr htexts

theorem settleConsiders_mono (merged part : JobParams)
    (hday : ∀ day, part.inSpan day = true → merged.inSpan day = true)
    (hforced : ∀ pair ∈ forcedPairs reading part, pair ∈ forcedPairs reading merged) (row : StoredUsage)
    (hrow : settleConsiders reading part row = true) : settleConsiders reading merged row = true := by
  unfold settleConsiders at hrow ⊢
  rw [Bool.and_eq_true, Bool.or_eq_true] at hrow ⊢
  refine ⟨hday _ hrow.1, hrow.2.imp id fun hpair => ?_⟩
  obtain ⟨pair, hmem, hmatch⟩ := List.any_eq_true.mp hpair
  exact List.any_eq_true.mpr ⟨pair, hforced pair hmem, hmatch⟩

theorem mergeRecompute_recomputes (queued new part : JobParams) (hpart : part = queued ∨ part = new)
    (provider : String) (h : recomputes reading part provider = true) :
    recomputes reading (mergeRecompute queued new) provider = true := by
  unfold mergeRecompute
  split
  · rename_i hsame
    obtain ⟨name, hname⟩ := Option.isSome_iff_exists.mp hsame.1
    have hkept : ({ JobParams.blank with provider := queued.named } : JobParams).named = queued.named :=
      named_keeps queued name hname
    have hnamed : part.named = queued.named := by
      rcases hpart with rfl | rfl
      · rfl
      · exact hsame.2.symm
    rw [recomputes, hkept, ← hnamed]
    exact h
  · rfl

end Selecting

section Chains

variable (reading : JobReading)

-- One job's parameters select all the work that another's select, as its kind selects work.
def SelectsAll (kind : JobKind) (merged part : JobParams) : Prop :=
  (kind = .restate → ∀ row, restateConsiders reading part row = true → restateConsiders reading merged row = true) ∧
  (kind = .settleFx →
    (∀ day, part.inSpan day = true → merged.inSpan day = true) ∧
    (∀ pair ∈ forcedPairs reading part, pair ∈ forcedPairs reading merged) ∧
    ∀ row, settleConsiders reading part row = true → settleConsiders reading merged row = true) ∧
  (kind = .recomputeCommitments →
    ∀ provider, recomputes reading part provider = true → recomputes reading merged provider = true)

theorem SelectsAll.refl (kind : JobKind) (params : JobParams) : SelectsAll reading kind params params :=
  ⟨fun _ _ h => h, fun _ => ⟨fun _ h => h, fun _ h => h, fun _ h => h⟩, fun _ _ h => h⟩

theorem SelectsAll.trans (kind : JobKind) (a b c : JobParams) (hab : SelectsAll reading kind a b)
    (hbc : SelectsAll reading kind b c) : SelectsAll reading kind a c := by
  refine ⟨fun hk row h => hab.1 hk row (hbc.1 hk row h), fun hk => ?_,
    fun hk provider h => hab.2.2 hk provider (hbc.2.2 hk provider h)⟩
  obtain ⟨hday, hforced, hrow⟩ := hab.2.1 hk
  obtain ⟨hday', hforced', hrow'⟩ := hbc.2.1 hk
  exact ⟨fun day h => hday day (hday' day h), fun pair h => hforced pair (hforced' pair h),
    fun row h => hrow row (hrow' row h)⟩

theorem mergeParams_selects (texts : JobTexts) (kind : JobKind) (queued new merged part : JobParams)
    (hkind : kind ∈ [JobKind.recomputeCommitments, .settleFx, .restate])
    (h : mergeParams texts kind queued new = .ok (some merged)) (hpart : part = queued ∨ part = new) :
    SelectsAll reading kind merged part := by
  cases kind with
  | recomputeCommitments =>
      rw [← Option.some.inj (Except.ok.inj h)]
      exact ⟨JobKind.noConfusion, JobKind.noConfusion,
        fun _ => mergeRecompute_recomputes reading queued new part hpart⟩
  | settleFx =>
      obtain ⟨joined, hspan, h⟩ := (bind_ok _ _ _).mp h
      rw [pure_ok] at h
      obtain ⟨range, hrange, rfl⟩ := Option.map_eq_some_iff.mp h
      rw [hrange] at hspan
      have hday : ∀ day, part.inSpan day = true → (mergeSettle queued new range).inSpan day = true := by
        intro day hin
        refine span_covers queued new (mergeSettle queued new range) range hspan rfl rfl day ?_
        rcases hpart with rfl | rfl
        · exact .inl hin
        · exact .inr hin
      have hforced := mergeSettle_forced reading queued new part range hpart
      exact ⟨JobKind.noConfusion, fun _ => ⟨hday, hforced, settleConsiders_mono reading _ _ hday hforced⟩,
        JobKind.noConfusion⟩
  | restate =>
      rw [mergeParams] at h
      split at h
      · cases h
      · rename_i hprovider
        obtain ⟨joined, hspan, h⟩ := (bind_ok _ _ _).mp h
        rw [pure_ok] at h
        obtain ⟨range, hrange, rfl⟩ := Option.map_eq_some_iff.mp h
        rw [hrange] at hspan
        exact ⟨fun _ => mergeRestate_considers reading texts queued new part range (not_not.mp hprovider) hspan hpart,
          JobKind.noConfusion, JobKind.noConfusion⟩
  | rebuild => simp at hkind
  | backfill => simp at hkind
  | reattribute => simp at hkind

-- Induction on the follow-ups: what is merged so far selects all that went into it.
theorem mergeAll_selects (texts : JobTexts) (kind : JobKind)
    (hkind : kind ∈ [JobKind.recomputeCommitments, .settleFx, .restate]) (later : List JobParams) :
    ∀ queued merged, mergeAll texts kind queued later = .ok (some merged) →
      ∀ part ∈ queued :: later, SelectsAll reading kind merged part := by
  induction later with
  | nil =>
      intro queued merged h part hpart
      rw [mergeAll] at h
      rw [List.mem_singleton.mp hpart, ← Option.some.inj (Except.ok.inj h)]
      exact SelectsAll.refl reading kind queued
  | cons new later ih =>
      intro queued merged h part hpart
      rw [mergeAll] at h
      obtain ⟨step, hstep, h⟩ := (bind_ok _ _ _).mp h
      cases step with
      | none => cases h
      | some next =>
          have hnext := ih next merged h
          have hfirst := hnext next List.mem_cons_self
          have hmerge := fun part => mergeParams_selects reading texts kind queued new next part hkind hstep
          rcases List.mem_cons.mp hpart with rfl | hpart
          · exact hfirst.trans reading kind merged next part (hmerge part (.inl rfl))
          rcases List.mem_cons.mp hpart with rfl | hpart
          · exact hfirst.trans reading kind merged next part (hmerge part (.inr rfl))
          · exact hnext part (List.mem_cons_of_mem next hpart)

-- Follow-ups merged in any order select together what each of them selects alone.
theorem followups_cover (texts : JobTexts) (kind : JobKind)
    (hkind : kind ∈ [JobKind.recomputeCommitments, .settleFx, .restate]) (followups later : List JobParams)
    (queued merged : JobParams) (horder : (queued :: later).Perm followups)
    (h : mergeAll texts kind queued later = .ok (some merged)) (part : JobParams) (hpart : part ∈ followups) :
    (kind = .restate →
      ∀ row, restateConsiders reading part row = true → restateConsiders reading merged row = true) ∧
    (kind = .settleFx →
      (∀ day, part.inSpan day = true → merged.inSpan day = true) ∧
      (∀ pair ∈ forcedPairs reading part, pair ∈ forcedPairs reading merged) ∧
      ∀ row, settleConsiders reading part row = true → settleConsiders reading merged row = true) ∧
    (kind = .recomputeCommitments →
      ∀ provider, recomputes reading part provider = true → recomputes reading merged provider = true) :=
  mergeAll_selects reading texts kind hkind later queued merged h part (horder.mem_iff.mpr hpart)

def plainReading : JobReading := ⟨id, id, fun text => if text = "2026-07-03" then some 3 else none, id⟩

def cardRestatement : JobParams := ⟨some "openai", some 1, some 5, [], ["card-b"], false, "new card"⟩
def unpricedRestatement : JobParams := ⟨some "openai", some 4, some 9, [], [], true, "new card"⟩
def fullRestatement : JobParams := ⟨some "openai", some 2, some 2, [], [], false, "fix"⟩

def mergedRestatement : JobParams :=
  mergeRestate ⟨id, id⟩ (mergeRestate ⟨id, id⟩ unpricedRestatement cardRestatement (1, 9)) fullRestatement (1, 9)

theorem followups_cover_card :
    mergedRestatement.everything = true ∧
    ∀ row, restateConsiders plainReading cardRestatement row = true →
      restateConsiders plainReading mergedRestatement row = true :=
  ⟨mergeRestate_everything _ _ _ _ (Bool.or_true _), (followups_cover plainReading ⟨id, id⟩ .restate (by decide)
    [cardRestatement, unpricedRestatement, fullRestatement] [cardRestatement, fullRestatement] unpricedRestatement
    mergedRestatement (by decide) rfl cardRestatement List.mem_cons_self).1 rfl⟩

end Chains

end AgenticOrg.Spend
