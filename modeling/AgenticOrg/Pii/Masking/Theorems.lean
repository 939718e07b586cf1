import AgenticOrg.Pii.Masking.Restoring

namespace AgenticOrg.Pii

open JsonText OrderedDict Splices

section Inclusion

-- A map that grew out of another one, or out of none.
def Included (before after : Option PseudonymMap) : Prop :=
  ∀ pmap ∈ before, ∃ later ∈ after, pmap.Extended later

variable {before after : Option PseudonymMap}

theorem Included.refl (known : Option PseudonymMap) : Included known known :=
  fun pmap hp => ⟨pmap, hp, .refl pmap⟩

theorem Included.trans {known : Option PseudonymMap} (h : Included before after) (h' : Included after known) :
    Included before known := by
  intro pmap hp
  obtain ⟨later, hl, hextended⟩ := h pmap hp
  obtain ⟨last, hlast, hextended'⟩ := h' later hl
  exact ⟨last, hlast, hextended.trans hextended'⟩

theorem Included.valueToken (h : Included before after) (value token : Text)
    (hv : valueToken before value = some token) : valueToken after value = some token := by
  obtain ⟨pmap, hp, hget⟩ := Option.bind_eq_some_iff.mp hv
  obtain ⟨later, hl, hextended⟩ := h pmap hp
  rw [Option.mem_def.mp hl]
  exact hextended.byValue value token hget

theorem Included.swapped (h : Included before after) (segments : List (Segment CodePoint))
    (hs : Swapped before segments) : Swapped after segments :=
  fun value token hm => h.valueToken value token (hs value token hm)

theorem Included.maskedBy (h : Included before after) (input masked : Text) (hm : MaskedBy before input masked) :
    MaskedBy after input masked := by
  obtain ⟨segments, hsource, htarget, hs⟩ := hm
  exact ⟨segments, hsource, htarget, h.swapped segments hs⟩

end Inclusion

section Invariants

def Case.Holds (record : Case) (known : Option PseudonymMap) : Prop := ∀ pmap ∈ known, ∃ held ∈ record.held, held.2 = pmap

def Phase.Kept (record : Case) (known : Option PseudonymMap) (texts : List Text) : Phase → Prop
  | .ready => True
  | .running captured remembered => record.Holds captured ∧ Included captured known ∧
      ∀ entry ∈ texts.zip remembered, ∀ masked ∈ entry.2, MaskedBy known entry.1 masked
  | .adding additions => ∀ addition ∈ additions, addition.1 ≠ []

structure JobInvariant (record : Case) (known : Option PseudonymMap) (job : Job) : Prop where
  pending : ∀ addition ∈ job.pending, addition.1 ≠ []
  phase : job.phase.Kept record known job.texts

structure SessionInvariant (record : Case) (session : Session) : Prop where
  map : record.Holds session.map
  issued : ∀ token ∈ session.issued, ∃ pmap ∈ session.map, ∃ value, pmap.byToken.get? token = some value
  memo : ∀ input size masked, session.memo.get? input = some (size, masked) → MaskedBy session.map input masked
  returned : ∀ input masked, (input, masked) ∈ session.returned → ∃ segments, sourceOf segments = input ∧
    targetOf segments = masked ∧ Swapped session.map segments ∧
    ∀ value token, .swap value token ∈ segments → token ∈ session.issued
  jobs : ∀ id job, session.jobs id = some job → JobInvariant record session.map job

structure WorldInvariant (world : World) : Prop where
  record : CaseInvariant world.record
  filled : ∀ held ∈ world.record.held, held.2.Filled
  newest : ∀ raw, world.record.stored = some raw → ∃ held ∈ world.record.held, raw = held.2.toJson
  sessions : ∀ id, SessionInvariant world.record (world.sessions id)

variable {record record' : Case} {session : Session}

theorem newWorld_invariant : WorldInvariant newWorld := by
  refine ⟨emptyCase_invariant, fun held hm => ?_, fun raw hraw => ?_, fun id => ⟨fun pmap hp => ?_, fun token hm => ?_,
    fun input size masked hget => ?_, fun input masked hm => ?_, fun id job hj => ?_⟩⟩
  · cases hm
  · cases hraw
  · cases hp
  · cases hm
  · cases hget
  · cases hm
  · cases hj

-- More maps may be handed out, and the session's own may grow.
theorem Phase.Kept.mono {known known' : Option PseudonymMap} {texts : List Text} {phase : Phase}
    (h : phase.Kept record known texts) (hrecord : record.held ⊆ record'.held) (hknown : Included known known') :
    phase.Kept record' known' texts := by
  cases phase with
  | ready => trivial
  | adding additions => exact h
  | running captured remembered =>
      obtain ⟨hheld, hcaptured, hmasked⟩ := h
      refine ⟨fun pmap hp => ?_, hcaptured.trans hknown, fun entry he masked hm => ?_⟩
      · obtain ⟨held, hm, rfl⟩ := hheld pmap hp
        exact ⟨held, hrecord hm, rfl⟩
      · exact hknown.maskedBy _ _ (hmasked entry he masked hm)

theorem SessionInvariant.mono (h : SessionInvariant record session) (hrecord : record.held ⊆ record'.held) :
    SessionInvariant record' session := by
  refine ⟨fun pmap hp => ?_, h.issued, h.memo, h.returned, fun id job hj => ?_⟩
  · obtain ⟨held, hm, rfl⟩ := h.map pmap hp
    exact ⟨held, hrecord hm, rfl⟩
  · have hjob := h.jobs id job hj
    exact ⟨hjob.pending, hjob.phase.mono hrecord (.refl _)⟩

-- The session gets a map that its own goes into.
theorem SessionInvariant.withMap (h : SessionInvariant record session)
    (known : Option PseudonymMap) (hknown : record'.Holds known) (hincluded : Included session.map known)
    (jobs : ℕ → Option Job) (hjobs : ∀ id job, jobs id = some job → JobInvariant record' known job) :
    SessionInvariant record' { session with map := known, jobs } := by
  refine ⟨hknown, fun token hm => ?_, fun input size masked hget => ?_, fun input masked hm => ?_, hjobs⟩
  · obtain ⟨pmap, hp, value, hget⟩ := h.issued token hm
    obtain ⟨later, hl, hextended⟩ := hincluded pmap hp
    exact ⟨later, hl, value, hextended.byToken token value hget⟩
  · exact hincluded.maskedBy _ _ (h.memo input size masked hget)
  · obtain ⟨segments, hsource, htarget, hs, hissued⟩ := h.returned input masked hm
    exact ⟨segments, hsource, htarget, hincluded.swapped segments hs, hissued⟩

theorem update_some {jobs : ℕ → Option Job} {id other : ℕ} {job : Option Job} {found : Job}
    (h : Function.update jobs id job other = some found) : (other = id ∧ job = some found) ∨ jobs other = some found := by
  by_cases he : other = id
  · subst he
    rw [Function.update_self] at h
    exact .inl ⟨rfl, h⟩
  · rw [Function.update_of_ne he] at h
    exact .inr h

-- A call's own state changes and nothing else.
theorem SessionInvariant.withJob (h : SessionInvariant record session) (id : ℕ) (job : Option Job)
    (hjob : ∀ found ∈ job, JobInvariant record session.map found) :
    SessionInvariant record { session with jobs := Function.update session.jobs id job } := by
  refine ⟨h.map, h.issued, h.memo, h.returned, fun other found hf => ?_⟩
  rcases update_some hf with ⟨_, hf⟩ | hf
  · exact hjob found hf
  · exact h.jobs other found hf

end Invariants

section Calls

variable {record : Case} {session : Session} (tables : Tables)

theorem SessionInvariant.start (h : SessionInvariant record session) (id : ℕ) (texts : List Text)
    (structured : List Json) : SessionInvariant record (session.start tables id texts structured) := by
  refine h.withJob id _ fun found hf => ?_
  cases hf
  exact ⟨fun addition ha => pendingValues_filled tables session.map texts structured addition ha, trivial⟩

theorem SessionInvariant.remembered (h : SessionInvariant record session) (input masked : Text)
    (hm : session.remembered input = some masked) : MaskedBy session.map input masked := by
  unfold Session.remembered at hm
  split_ifs at hm with hnil
  · cases hm
    rw [hnil]
    exact maskedBy_self _ []
  · split at hm
    · cases hm
    · rename_i size other hget
      split_ifs at hm
      cases hm
      exact h.memo input size masked hget

theorem SessionInvariant.capture (h : SessionInvariant record session) (id : ℕ) :
    SessionInvariant record (session.capture id) := by
  unfold Session.capture
  split
  · rename_i texts pending passes hjob
    refine h.withJob id _ fun found hf => ?_
    cases hf
    refine ⟨(h.jobs id _ hjob).pending, h.map, .refl _, fun entry he masked hm => ?_⟩
    obtain ⟨index, hindex, rfl⟩ := List.getElem_of_mem he
    rw [List.getElem_zip] at hm ⊢
    rw [List.getElem_map] at hm
    exact h.remembered _ masked hm
  · exact h

variable (detector : Detector) {known captured : Option PseudonymMap}

theorem passResult_maskedBy (hincluded : Included captured known) (hmaps : ∀ pmap ∈ captured, MapInvariant pmap ∧ pmap.Filled)
    (entry : Text × Option Text) (hentry : ∀ masked ∈ entry.2, MaskedBy known entry.1 masked)
    (hmissing : (passResult tables detector captured entry).2 = []) :
    MaskedBy known entry.1 (passResult tables detector captured entry).1 := by
  unfold passResult at hmissing ⊢
  cases hremembered : entry.2 with
  | some masked => exact hentry masked hremembered
  | none =>
      rw [hremembered] at hmissing
      exact hincluded.maskedBy _ _ (maskedBy_applyMap tables captured hmaps detector entry.1 hmissing)

theorem passResult_filled (entry : Text × Option Text) (addition : Text × Text)
    (h : addition ∈ (passResult tables detector captured entry).2) : addition.1 ≠ [] := by
  unfold passResult at h
  split at h
  · cases h
  · exact applyMap_filled tables detector captured entry.1 addition h

theorem passMemo_maskedBy (hincluded : Included captured known) (hmaps : ∀ pmap ∈ captured, MapInvariant pmap ∧ pmap.Filled)
    (memo : Dict Text (ℕ × Text))
    (hmemo : ∀ input size masked, memo.get? input = some (size, masked) → MaskedBy known input masked)
    (entry : Text × Option Text) (input : Text) (size : ℕ) (masked : Text)
    (h : (passMemo tables detector captured memo entry).get? input = some (size, masked)) :
    MaskedBy known input masked := by
  unfold passMemo at h
  split at h
  · exact hmemo input size masked h
  · split_ifs at h with hmissing
    · rw [remember, Dict.get?_insert] at h
      split_ifs at h with he hfull
      · rw [beq_iff_eq] at he
        cases h
        rw [← he]
        exact hincluded.maskedBy _ _ (maskedBy_applyMap tables captured hmaps detector entry.1 hmissing)
      · cases h
      · exact hmemo input size masked h
    · exact hmemo input size masked h

theorem foldl_passMemo_maskedBy (hincluded : Included captured known)
    (hmaps : ∀ pmap ∈ captured, MapInvariant pmap ∧ pmap.Filled) (entries : List (Text × Option Text))
    (memo : Dict Text (ℕ × Text))
    (hmemo : ∀ input size masked, memo.get? input = some (size, masked) → MaskedBy known input masked) :
    ∀ input size masked, (entries.foldl (passMemo tables detector captured) memo).get? input = some (size, masked) →
      MaskedBy known input masked := by
  induction entries generalizing memo with
  | nil => exact hmemo
  | cons entry rest ih =>
      exact ih _ fun input size masked h =>
        passMemo_maskedBy tables detector hincluded hmaps memo hmemo entry input size masked h

-- What was put into a text that is returned is noted.
theorem mem_tokensIn (pmap : PseudonymMap) (h : MapInvariant pmap) (segments : List (Segment CodePoint))
    (hs : Swapped (some pmap) segments) (value token : Text) (hm : .swap value token ∈ segments) :
    containsOpen (targetOf segments) = true ∧ token ∈ tokensIn pmap (targetOf segments) := by
  obtain ⟨found, hvalid, rfl, _⟩ := hs.valid h segments value token hm
  have hget := (h.inverse _ _).mpr (hs value found.text hm)
  obtain ⟨before, after, rfl⟩ := List.append_of_mem hm
  have htarget : targetOf (before ++ .swap value found.text :: after) =
      targetOf before ++ (found.text ++ targetOf after) := by
    rw [targetOf_append, targetOf_cons]
    rfl
  rw [htarget]
  refine ⟨decide_eq_true ?_, List.mem_filter.mpr ⟨?_, ?_⟩⟩
  · obtain ⟨body, hbody, _, _⟩ := hvalid.not_open
    refine ⟨targetOf before, body ++ targetOf after, ?_⟩
    rw [hbody]
    simp [text]
  · rw [findTokens_append _ _ found hvalid, List.map_append, List.map_cons]
    simp
  · rw [← Dict.isSome_get?, hget]
    rfl

theorem SessionInvariant.noteIssued (h : SessionInvariant record session) (texts : List Text) (token : Text)
    (hm : token ∈ session.noteIssued texts) :
    ∃ pmap ∈ session.map, ∃ value, pmap.byToken.get? token = some value := by
  unfold Session.noteIssued at hm
  split at hm
  · exact h.issued token hm
  · rename_i pmap hmap
    rcases List.mem_append.mp hm with hm | hm
    · exact h.issued token hm
    · obtain ⟨input, _, hm⟩ := List.mem_flatMap.mp hm
      have hsome : (pmap.byToken.get? token).isSome = true := by
        rw [Dict.isSome_get?]
        exact (List.mem_filter.mp hm).2
      obtain ⟨value, hget⟩ := Option.isSome_iff_exists.mp hsome
      exact ⟨pmap, hmap, value, hget⟩

theorem mem_noteIssued (hmaps : ∀ pmap ∈ session.map, MapInvariant pmap) (texts : List Text)
    (segments : List (Segment CodePoint)) (hs : Swapped session.map segments) (ht : targetOf segments ∈ texts)
    (value token : Text) (hm : .swap value token ∈ segments) : token ∈ session.noteIssued texts := by
  unfold Session.noteIssued
  cases hmap : session.map with
  | none =>
      rw [hmap] at hs
      cases hs value token hm
  | some pmap =>
      rw [hmap] at hs
      obtain ⟨hopen, htoken⟩ := mem_tokensIn pmap (hmaps pmap hmap) segments hs value token hm
      refine List.mem_append_right _ (List.mem_flatMap.mpr ⟨targetOf segments, ?_, htoken⟩)
      exact List.mem_filter.mpr ⟨ht, hopen⟩

theorem SessionInvariant.finish (h : SessionInvariant record session) (hrecord : CaseInvariant record)
    (hfilled : ∀ held ∈ record.held, held.2.Filled) (id : ℕ) :
    SessionInvariant record (session.finish tables id detector) := by
  have hmaps : ∀ known, record.Holds known → ∀ pmap ∈ known, MapInvariant pmap ∧ pmap.Filled := by
    intro known hk pmap hp
    obtain ⟨held, hm, rfl⟩ := hk pmap hp
    exact ⟨hrecord.held held hm, hfilled held hm⟩
  unfold Session.finish
  split
  · rename_i texts pending passes captured remembered hjob
    have hinvariant := h.jobs id _ hjob
    obtain ⟨hheld, hincluded, hentries⟩ := hinvariant.phase
    have hcaptured := hmaps captured hheld
    have hmemo := foldl_passMemo_maskedBy tables detector hincluded hcaptured (texts.zip remembered) session.memo h.memo
    dsimp only
    split_ifs with hnone
    · rw [List.append_eq_nil_iff] at hnone
      have hresults : ∀ entry ∈ texts.zip remembered, (passResult tables detector captured entry).2 = [] := by
        intro entry he
        exact List.flatMap_eq_nil_iff.mp hnone.2 _ (List.mem_map.mpr ⟨entry, he, rfl⟩)
      refine ⟨h.map, fun token hm => h.noteIssued _ token hm, hmemo, fun input masked hm => ?_, fun other found hf => ?_⟩
      · rcases List.mem_append.mp hm with hm | hm
        · obtain ⟨entry, he, hpair⟩ := List.mem_map.mp hm
          cases hpair
          obtain ⟨segments, hsource, htarget, hs⟩ := passResult_maskedBy tables detector hincluded hcaptured entry
            (hentries entry he) (hresults entry he)
          refine ⟨segments, hsource, htarget, hs, fun value token hswap => ?_⟩
          refine mem_noteIssued (fun pmap hp => (hmaps session.map h.map pmap hp).1) _ segments hs ?_ value token hswap
          rw [htarget]
          exact List.mem_map.mpr ⟨_, List.mem_map.mpr ⟨entry, he, rfl⟩, rfl⟩
        · obtain ⟨segments, hsource, htarget, hs, hissued⟩ := h.returned input masked hm
          refine ⟨segments, hsource, htarget, hs, fun value token hswap => ?_⟩
          have hold := hissued value token hswap
          change token ∈ session.noteIssued _
          unfold Session.noteIssued
          split
          · exact hold
          · exact List.mem_append_left _ hold
      · rcases update_some hf with ⟨_, hf⟩ | hf
        · cases hf
        · exact h.jobs other found hf
    · refine ⟨h.map, h.issued, hmemo, h.returned, fun other found hf => ?_⟩
      rcases update_some hf with ⟨_, hf⟩ | hf
      · cases hf
        refine ⟨fun addition ha => absurd ha List.not_mem_nil, fun addition ha => ?_⟩
        rcases List.mem_append.mp ha with ha | ha
        · exact hinvariant.pending addition ha
        · obtain ⟨result, hr, ha⟩ := List.mem_flatMap.mp ha
          obtain ⟨entry, _, rfl⟩ := List.mem_map.mp hr
          exact passResult_filled tables detector entry addition ha
      · exact h.jobs other found hf
  · exact h

end Calls

section Steps

variable {world : World}

theorem filled_tokenFor (pmap : PseudonymMap) (h : pmap.Filled) (value entityType : Text) (hv : value ≠ []) :
    (pmap.tokenFor value entityType).2.Filled := by
  cases hknown : pmap.byValue.get? value with
  | some token =>
      rw [tokenFor_known value entityType token hknown]
      exact h
  | none =>
      rw [tokenFor_new value entityType hknown]
      intro other token hget
      change (pmap.byValue.insert value _).get? other = some token at hget
      rw [Dict.get?_insert] at hget
      split_ifs at hget with he
      · rw [beq_iff_eq] at he
        exact he ▸ hv
      · exact h other token hget

theorem filled_addAll (additions : List (Text × Text)) (pmap : PseudonymMap) (h : pmap.Filled)
    (ha : ∀ addition ∈ additions, addition.1 ≠ []) : (pmap.addAll additions).Filled := by
  induction additions generalizing pmap with
  | nil => exact h
  | cons addition rest ih =>
      exact ih _ (filled_tokenFor pmap h addition.1 addition.2 (ha addition List.mem_cons_self))
        fun other ho => ha other (List.mem_cons_of_mem _ ho)

-- What an add starts from: a map that every map handed out goes into.
theorem WorldInvariant.mapOrNew (h : WorldInvariant world) (tag : Tag) :
    ∃ pmap, mapOrNew world.record.stored tag = .ok pmap ∧ MapInvariant pmap ∧ pmap.Filled ∧
      ∀ held ∈ world.record.held, held.2.Extended pmap := by
  obtain ⟨pmap, hread, hmap, hheld⟩ := h.record.mapOrNew tag
  refine ⟨pmap, hread, hmap, ?_, hheld⟩
  have hnew : (newMap tag).Filled := fun value token hget => by cases hget
  cases hstored : world.record.stored with
  | none =>
      rw [hstored] at hread
      cases hread
      exact hnew
  | some raw =>
      obtain ⟨held, hm, rfl⟩ := h.newest raw hstored
      rw [hstored] at hread
      change (fromJson held.2.toJson >>= fun pmap => _) = _ at hread
      rw [(h.record.held held hm).fromJson_toJson] at hread
      change Except.ok (if held.2.byToken.size = 0 then newMap tag else held.2) = _ at hread
      rw [Except.ok.injEq] at hread
      rw [← hread]
      split_ifs
      · exact hnew
      · exact h.filled held hm

-- A session changes on its own.
theorem WorldInvariant.update (h : WorldInvariant world) (id : ℕ) (change : Session → Session)
    (hchange : SessionInvariant world.record (change (world.sessions id))) : WorldInvariant (world.update id change) := by
  refine ⟨h.record, h.filled, h.newest, fun other => ?_⟩
  by_cases he : other = id
  · subst he
    change SessionInvariant world.record (Function.update world.sessions other _ other)
    rw [Function.update_self]
    exact hchange
  · change SessionInvariant world.record (Function.update world.sessions id _ other)
    rw [Function.update_of_ne he]
    exact h.sessions other

theorem WorldInvariant.withRecord (h : WorldInvariant world) (record : Case) (hrecord : CaseInvariant record)
    (hfilled : ∀ held ∈ record.held, held.2.Filled)
    (hnewest : ∀ raw, record.stored = some raw → ∃ held ∈ record.held, raw = held.2.toJson)
    (hheld : world.record.held ⊆ record.held) (id : ℕ) (change : Session → Session)
    (hchange : SessionInvariant record (change (world.sessions id))) :
    WorldInvariant { (world.update id change) with record } := by
  refine ⟨hrecord, hfilled, hnewest, fun other => ?_⟩
  by_cases he : other = id
  · subst he
    change SessionInvariant record (Function.update world.sessions other _ other)
    rw [Function.update_self]
    exact hchange
  · change SessionInvariant record (Function.update world.sessions id _ other)
    rw [Function.update_of_ne he]
    exact (h.sessions other).mono hheld

theorem SessionInvariant.included {record : Case} {session : Session} (h : SessionInvariant record session)
    (pmap : PseudonymMap) (hheld : ∀ held ∈ record.held, held.2.Extended pmap) : Included session.map (some pmap) := by
  intro own ho
  obtain ⟨held, hm, rfl⟩ := h.map own ho
  exact ⟨pmap, rfl, hheld held hm⟩

theorem WorldInvariant.load (h : WorldInvariant world) (id : ℕ) : WorldInvariant (world.load id) := by
  have hsession := h.sessions id
  cases hstored : world.record.stored with
  | none =>
      rw [World.load, hstored]
      refine h.update id _ (hsession.withMap none (fun pmap hp => by cases hp) (fun pmap hp => ?_) _
        fun other job hj => ?_)
      · obtain ⟨held, hm, _⟩ := hsession.map pmap hp
        rw [h.record.unstored hstored] at hm
        cases hm
      · have hnone : (world.sessions id).map = none := by
          cases hmap : (world.sessions id).map with
          | none => rfl
          | some pmap =>
              obtain ⟨held, hm, _⟩ := hsession.map pmap hmap
              rw [h.record.unstored hstored] at hm
              cases hm
        exact hnone ▸ hsession.jobs other job hj
  | some raw =>
      obtain ⟨held, hheld, rfl⟩ := h.newest raw hstored
      have hmap := h.record.held held hheld
      have hread := hmap.fromJson_toJson
      -- The stored map is the one that every other goes into.
      have hall : ∀ other ∈ world.record.held, other.2.Extended held.2 := by
        obtain ⟨pmap, hpmap, hsame, hextended⟩ := h.record.stored _ hstored
        have heq : pmap = held.2 := by
          have hagain := hpmap.fromJson_toJson
          rw [← hsame, hread, Except.ok.injEq] at hagain
          exact hagain.symm
        rw [← heq]
        exact hextended
      have hrecord : world.record.load id = { world.record with held := (id, held.2) :: world.record.held } := by
        simp only [Case.load, hstored, Option.map_some, hread]
      have hworld : world.load id =
          { (world.update id fun state => { state with map := some held.2 }) with record := world.record.load id } := by
        rw [World.load, hstored, Option.map_some, hread]
      rw [hworld]
      have hsub : world.record.held ⊆ (world.record.load id).held := by
        rw [hrecord]
        exact List.subset_cons_self _ _
      have hincluded := hsession.included held.2 hall
      refine h.withRecord _ (h.record.load id) (fun other ho => ?_) (fun raw hraw => ?_) hsub id _
        (hsession.withMap (some held.2) (fun pmap hp => ?_) hincluded _ fun other job hj => ?_)
      · rw [hrecord] at ho
        rcases List.mem_cons.mp ho with rfl | ho
        · exact h.filled held hheld
        · exact h.filled other ho
      · rw [hrecord] at hraw ⊢
        exact ⟨held, List.mem_cons_of_mem _ hheld, Option.some.inj (hraw.symm.trans hstored)⟩
      · cases hp
        exact ⟨held, hsub hheld, rfl⟩
      · have hjob := hsession.jobs other job hj
        exact ⟨hjob.pending, hjob.phase.mono hsub hincluded⟩

-- No value that is added has two code points that JSON would join.
def UnjoinedStep (world : World) : WorldStep → Prop
  | .add session job _ => ∀ additions ∈ jobAdditions ((world.sessions session).jobs job),
      ∀ addition ∈ additions, Unjoined addition.1
  | _ => True

theorem jobAdditions_some (job : Option Job) (additions : List (Text × Text)) (h : jobAdditions job = some additions) :
    ∃ texts pending passes, job = some ⟨texts, pending, passes, .adding additions⟩ := by
  unfold jobAdditions at h
  split at h
  · cases h
    exact ⟨_, _, _, rfl⟩
  · cases h

theorem WorldInvariant.add (h : WorldInvariant world) (id job : ℕ) (tag : Tag)
    (hunjoined : UnjoinedStep world (.add id job tag)) : WorldInvariant (world.add id job tag) := by
  cases hadditions : jobAdditions ((world.sessions id).jobs job) with
  | none =>
      rw [World.add, hadditions]
      exact h
  | some additions =>
      obtain ⟨texts, pending, passes, hjob⟩ := jobAdditions_some _ additions hadditions
      have hsession := h.sessions id
      have hfilled : ∀ addition ∈ additions, addition.1 ≠ [] := (hsession.jobs job _ hjob).phase
      obtain ⟨pmap, hread, hmap, hpfilled, hheld⟩ := h.mapOrNew tag
      have hunjoined : ∀ addition ∈ additions, Unjoined addition.1 := hunjoined additions hadditions
      have hunique : ∀ addition ∈ additions.eraseDups, addition ∈ additions :=
        fun addition ha => List.mem_eraseDups.mp ha
      have hnext := hmap.extended_addAll additions.eraseDups fun addition ha => hunjoined addition (hunique addition ha)
      have hrecord : world.record.add id tag additions = { world.record with
          stored := some (pmap.addAll additions.eraseDups).toJson
          held := (id, pmap.addAll additions.eraseDups) :: world.record.held } := by
        rw [Case.add, hread]
      have hworld : world.add id job tag =
          { (world.update id fun state => state.added job (pmap.addAll additions.eraseDups)) with
            record := world.record.add id tag additions } := by
        rw [World.add, hadditions]
        simp only [hread]
      have hnextfilled : (pmap.addAll additions.eraseDups).Filled :=
        filled_addAll _ pmap hpfilled fun addition ha => hfilled addition (hunique addition ha)
      have hcase := h.record.add id tag additions hunjoined
      generalize pmap.addAll additions.eraseDups = next at hnext hrecord hworld hnextfilled
      have hsub : world.record.held ⊆ (world.record.add id tag additions).held := by
        rw [hrecord]
        exact List.subset_cons_self _ _
      have hincluded := hsession.included next fun held hm => (hheld held hm).trans hnext
      have hadded : (world.sessions id).added job next = { world.sessions id with
          map := some next
          jobs := Function.update (world.sessions id).jobs job
            (if passes ≤ 1 then none else some ⟨texts, pending, passes - 1, .ready⟩) } := by
        rw [Session.added, hjob]
      rw [hworld]
      refine h.withRecord _ hcase (fun held hm => ?_) (fun raw hraw => ?_) hsub id _ ?_
      · rw [hrecord] at hm
        rcases List.mem_cons.mp hm with rfl | hm
        · exact hnextfilled
        · exact h.filled held hm
      · rw [hrecord] at hraw ⊢
        exact ⟨(id, next), List.mem_cons_self, (Option.some.inj hraw).symm⟩
      · rw [hadded]
        refine hsession.withMap (some next) (fun own ho => ?_) hincluded _ fun other found hf => ?_
        · cases ho
          rw [hrecord]
          exact ⟨(id, next), List.mem_cons_self, rfl⟩
        · rcases update_some hf with ⟨_, hf⟩ | hf
          · split_ifs at hf
            cases hf
            exact ⟨(hsession.jobs job _ hjob).pending, trivial⟩
          · have hother := hsession.jobs other found hf
            exact ⟨hother.pending, hother.phase.mono hsub hincluded⟩

variable (tables : Tables)

theorem WorldInvariant.step (h : WorldInvariant world) (step : WorldStep) (hunjoined : UnjoinedStep world step) :
    WorldInvariant (world.step tables step) := by
  cases step with
  | load id => exact h.load id
  | start id job texts structured =>
      refine h.update id (fun state => state.start tables job texts structured) ?_
      exact (h.sessions id).start tables job texts structured
  | capture id job =>
      refine h.update id (fun state => state.capture job) ?_
      exact (h.sessions id).capture job
  | finish id job detector =>
      refine h.update id (fun state => state.finish tables job detector) ?_
      exact (h.sessions id).finish tables detector h.record h.filled job
  | add id job tag => exact h.add id job tag hunjoined

def UnjoinedAlong (world : World) : List WorldStep → Prop
  | [] => True
  | step :: rest => UnjoinedStep world step ∧ UnjoinedAlong (world.step tables step) rest

theorem WorldInvariant.run (h : WorldInvariant world) (steps : List WorldStep)
    (hunjoined : UnjoinedAlong tables world steps) : WorldInvariant (world.run tables steps) := by
  induction steps generalizing world with
  | nil => exact h
  | cons step rest ih => exact ih (h.step tables step hunjoined.1) hunjoined.2

end Steps

section Theorems

variable {record : Case} {session : Session}

-- What was returned restores, and each of the map's tokens in it stands for the stretch it took the place of.
def Session.Restores (session : Session) (input masked : Text) : Prop :=
  session.restoreText masked = input ∧
    ∃ segments, sourceOf segments = input ∧ targetOf segments = masked ∧
      (∀ value token, .swap value token ∈ segments → ∃ pmap ∈ session.map, pmap.byToken.get? token = some value) ∧
      ∀ pmap ∈ session.map, tokensIn pmap masked = swapsOf segments

theorem SessionInvariant.restores (h : SessionInvariant record session) (hrecord : CaseInvariant record)
    (input masked : Text) (hreturned : (input, masked) ∈ session.returned)
    (htag : ∀ pmap ∈ session.map, containsTag pmap.tag input = false) : session.Restores input masked := by
  obtain ⟨segments, rfl, rfl, hs, hissued⟩ := h.returned input masked hreturned
  cases hmap : session.map with
  | none =>
      rw [hmap] at hs
      have hkept : ∀ segment ∈ segments, segment.isSwap = false := by
        intro segment hm
        cases segment with
        | keep c => rfl
        | swap value token => cases hs value token hm
      refine ⟨?_, segments, rfl, rfl, fun value token hm => ?_, fun pmap hp => ?_⟩
      · rw [Session.restoreText, hmap, targetOf_eq_sourceOf segments hkept]
      · cases hs value token hm
      · rw [hmap] at hp
        cases hp
  | some pmap =>
      obtain ⟨held, hm, rfl⟩ := h.map pmap hmap
      have hpmap := hrecord.held held hm
      have htag := htag held.2 hmap
      rw [hmap] at hs
      refine ⟨?_, segments, rfl, rfl, fun value token hm => ?_, fun other ho => ?_⟩
      · rw [Session.restoreText, hmap]
        dsimp only
        split_ifs with hskip
        · -- Nothing was put in: nothing was issued, or no token stands in the text.
          refine targetOf_eq_sourceOf segments fun segment hsegment => ?_
          cases segment with
          | keep c => rfl
          | swap value token =>
              have hin := hissued value token hsegment
              have hopen := (mem_tokensIn held.2 hpmap segments hs value token hsegment).1
              rcases hskip with hnone | hclosed
              · rw [hnone] at hin
                cases hin
              · rw [hopen] at hclosed
                cases hclosed
        · refine hs.subTokens hpmap segments _ (fun value token hsegment => ?_) fun found hvalid hwithin => ?_
          · rw [if_pos (hissued value token hsegment), (hpmap.inverse token value).mpr (hs value token hsegment)]
            rfl
          · rw [if_neg]
            intro hin
            obtain ⟨own, ho, value, hget⟩ := h.issued found.text hin
            rw [hmap, Option.mem_some_iff] at ho
            obtain ⟨other, hother, htext, hsame⟩ := hpmap.valid found.text ⟨value, ho ▸ hget⟩
            have heq : other = found := by
              have hmatch := (matchToken_iff (found.text ++ []) [] other).mpr ⟨hother, by rw [htext]⟩
              rw [(matchToken_iff (found.text ++ []) [] found).mpr ⟨hvalid, rfl⟩] at hmatch
              cases hmatch
              rfl
            rw [← hsame, heq, containsTag_of_within _ found hvalid hwithin] at htag
            cases htag
      · exact ⟨held.2, hmap, (hpmap.inverse token value).mpr (hs value token hm)⟩
      · rw [hmap, Option.mem_some_iff] at ho
        rw [← ho]
        exact hs.tokensIn hpmap segments htag

-- Whatever the recognisers report and however the calls of all sessions interleave, a text that was masked restores to
-- itself from then on.
theorem masked_texts_restore (tables : Tables) (steps : List WorldStep)
    (hunjoined : UnjoinedAlong tables newWorld steps) (id : ℕ) (input masked : Text)
    (hreturned : (input, masked) ∈ ((newWorld.run tables steps).sessions id).returned)
    (htag : ∀ pmap ∈ ((newWorld.run tables steps).sessions id).map, containsTag pmap.tag input = false) :
    ((newWorld.run tables steps).sessions id).Restores input masked := by
  have h := newWorld_invariant.run tables steps hunjoined
  exact (h.sessions id).restores h.record input masked hreturned htag

instance (world : World) (step : WorldStep) : Decidable (UnjoinedStep world step) :=
  match step with
  | .add .. => inferInstanceAs (Decidable (∀ additions ∈ _, ∀ addition ∈ additions, _))
  | .load _ | .start .. | .capture .. | .finish .. => inferInstanceAs (Decidable True)

instance UnjoinedAlong.decidable (tables : Tables) (world : World) (steps : List WorldStep) :
    Decidable (UnjoinedAlong tables world steps) :=
  match steps with
  | [] => inferInstanceAs (Decidable True)
  | step :: rest =>
      have := UnjoinedAlong.decidable tables (world.step tables step) rest
      inferInstanceAs (Decidable (_ ∧ _))

-- The tables as far as ASCII goes.
def asciiTables : Tables where
  isWord c := isUpper c || (97 ≤ c.val && c.val ≤ 122) || JsonText.isDigit c || c = code '_'
  isAlnum c := isUpper c || (97 ≤ c.val && c.val ≤ 122) || JsonText.isDigit c
  isDigit := JsonText.isDigit
  isSpace c := c.val = 32 || (9 ≤ c.val && c.val ≤ 13)
  lower c := if isUpper c then [Fin.ofNat _ (c.val + 32)] else [c]

-- A recogniser that knows one name at the start of a text.
def nameDetector (name : Text) : Detector := fun source =>
  if h : name ≠ [] ∧ name <+: source then
    [⟨0, name.length, text "PERSON", List.length_pos_iff.mpr h.1, h.2.length_le⟩]
  else []

-- A call that finds the name, has it added and masks the text in its second pass.
def maskSteps (session job : ℕ) (input name : Text) : List WorldStep :=
  [.start session job [input] [], .capture session job, .finish session job (nameDetector name),
    .add session job firstTag, .capture session job, .finish session job (nameDetector name)]

def namedSteps : List WorldStep :=
  maskSteps 0 0 (text "Ana met Ana") (text "Ana") ++ maskSteps 1 0 (text "Bo") (text "Bo") ++ [.load 0]

theorem masked_texts_restore_named :
    UnjoinedAlong asciiTables newWorld namedSteps ∧
    ((newWorld.run asciiTables namedSteps).sessions 0).Restores (text "Ana met Ana")
      (text "[[PERSON_1:3fa9c2]] met [[PERSON_1:3fa9c2]]") := by
  have hunjoined : UnjoinedAlong asciiTables newWorld namedSteps := by decide +kernel
  refine ⟨hunjoined, masked_texts_restore asciiTables namedSteps hunjoined 0 _ _ ?_ ?_⟩
  · decide +kernel
  · decide +kernel

-- Two lone surrogates come back as one character once the map was read from its row.
def surrogateTexts : List WorldStep :=
  maskSteps 0 0 [0xD83D, 0xDE00] [0xD83D, 0xDE00] ++ maskSteps 0 1 (text "Bo") (text "Bo")

theorem masked_surrogates_change :
    ([0xD83D, 0xDE00], text "[[PERSON_1:3fa9c2]]") ∈ ((newWorld.run asciiTables surrogateTexts).sessions 0).returned ∧
    (∀ pmap ∈ ((newWorld.run asciiTables surrogateTexts).sessions 0).map,
      containsTag pmap.tag [0xD83D, 0xDE00] = false) ∧
    ((newWorld.run asciiTables surrogateTexts).sessions 0).restoreText (text "[[PERSON_1:3fa9c2]]") ≠
      [0xD83D, 0xDE00] := by
  decide +kernel

end Theorems

end AgenticOrg.Pii
