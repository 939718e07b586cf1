import AgenticOrg.Lib.Json.Theorems
import AgenticOrg.Pii.Pseudonyms.Tokens

namespace AgenticOrg.Pii

open JsonText OrderedDict

section Ascii

theorem unjoined_of_ascii (value : Text) (h : ∀ c ∈ value, c.val < 128) : Unjoined value := by
  refine List.Pairwise.isChain (List.pairwise_of_forall_mem_list fun a ha b _ => ?_)
  rintro ⟨hhigh, _⟩
  have := (isHighSurrogate_iff a.val).mp hhigh
  have := h a ha
  omega

theorem isDigit_ascii (c : CodePoint) (h : isDigit c = true) : c.val < 128 := by
  rw [isDigit, Bool.and_eq_true, decide_eq_true_eq, decide_eq_true_eq] at h
  omega

theorem isEntityChar_ascii (c : CodePoint) (h : isEntityChar c = true) : c.val < 128 := by
  rw [isEntityChar, Bool.or_eq_true, Bool.or_eq_true, decide_eq_true_eq] at h
  rcases h with (h | h) | rfl
  · rw [isUpper, Bool.and_eq_true, decide_eq_true_eq, decide_eq_true_eq] at h
    omega
  · exact isDigit_ascii c h
  · decide

theorem isTag_ascii (tag : Text) (h : isTag tag = true) (c : CodePoint) (hc : c ∈ tag) : c.val < 128 := by
  have hchar := List.all_eq_true.mp ((isTag_iff tag).mp h).2 c hc
  rw [isHexChar, Bool.or_eq_true, Bool.and_eq_true, decide_eq_true_eq, decide_eq_true_eq] at hchar
  rcases hchar with hchar | hchar
  · exact isDigit_ascii c hchar
  · omega

theorem isEntity_chars (entity : Text) (h : isEntity entity = true) (c : CodePoint) (hc : c ∈ entity) :
    isEntityChar c = true := by
  obtain ⟨first, tail, rfl, hupper, htail⟩ := (isEntity_iff entity).mp h
  rcases List.mem_cons.mp hc with rfl | hc
  · exact isEntityChar_of_isUpper c hupper
  · exact List.all_eq_true.mp htail c hc

theorem tokenText_unjoined (entity tag : Text) (n : ℕ) (hentity : isEntity entity = true) (htag : isTag tag = true) :
    Unjoined (tokenText entity n tag) := by
  refine unjoined_of_ascii _ fun c hc => ?_
  have hopen : (text "[[").all (·.val < 128) = true := by decide
  have hclose : (text "]]").all (·.val < 128) = true := by decide
  simp only [tokenText, TokenMatch.text, List.mem_append, List.mem_cons] at hc
  rcases hc with ((((hc | hc) | rfl | hc)) | rfl | hc) | hc
  · exact of_decide_eq_true (List.all_eq_true.mp hopen c hc)
  · exact isEntityChar_ascii c (isEntity_chars entity hentity c hc)
  · decide
  · exact isDigit_ascii c (isDigit_decimal n c hc)
  · decide
  · exact isTag_ascii tag htag c hc
  · exact of_decide_eq_true (List.all_eq_true.mp hclose c hc)

theorem entityOf_isEntity (entityType : Text) : isEntity (entityOf entityType) = true := by
  unfold entityOf
  split_ifs with h
  · exact h
  · decide

end Ascii

section Invariants

-- A token holds the number that its entity's counter had when it was assigned.
structure MapInvariant (pmap : PseudonymMap) : Prop where
  tagged : isTag pmap.tag = true
  rebuilt : pmap.byToken.entries.foldlM (fun pmap entry => pmap.readEntry entry.1 entry.2) (newMap pmap.tag) = .ok pmap
  numbered : ∀ token value, pmap.byToken.get? token = some value →
    ∃ entity n, isEntity entity = true ∧ n ≠ 0 ∧ token = tokenText entity n pmap.tag ∧ n ≤ pmap.counter entity
  inverse : ∀ token value, pmap.byToken.get? token = some value ↔ pmap.byValue.get? value = some token
  unjoined : ∀ entry ∈ pmap.byToken.entries, Unjoined entry.1 ∧ Unjoined entry.2

variable {pmap : PseudonymMap}

theorem newMap_invariant (tag : Text) (htag : isTag tag = true) : MapInvariant (newMap tag) := by
  refine ⟨htag, rfl, fun token value h => ?_, fun token value => ⟨fun h => ?_, fun h => ?_⟩, fun entry he => ?_⟩
  · cases h
  · cases h
  · cases h
  · cases he

-- A number that the counter has not reached was never given out.
theorem MapInvariant.fresh (h : MapInvariant pmap) (entity : Text) (hentity : isEntity entity = true) :
    pmap.byToken.get? (tokenText entity (pmap.counter entity + 1) pmap.tag) = none := by
  cases hget : pmap.byToken.get? (tokenText entity (pmap.counter entity + 1) pmap.tag) with
  | none => rfl
  | some value =>
      obtain ⟨other, n, hother, hn, heq, hle⟩ := h.numbered _ value hget
      have hmatch := fullmatchToken_tokenText entity pmap.tag (pmap.counter entity + 1) (Nat.succ_ne_zero _) h.tagged
        hentity
      rw [heq, fullmatchToken_tokenText other pmap.tag n hn h.tagged hother, Option.some.injEq,
        TokenMatch.mk.injEq] at hmatch
      obtain ⟨rfl, hdigits, _⟩ := hmatch
      have hnumber := congrArg intOf hdigits
      rw [intOf_decimal n hn, intOf_decimal _ (Nat.succ_ne_zero _)] at hnumber
      omega

theorem tokenFor_known (value entityType token : Text) (h : pmap.byValue.get? value = some token) :
    (pmap.tokenFor value entityType).2 = pmap := by
  rw [PseudonymMap.tokenFor, h]

theorem tokenFor_new (value entityType : Text) (h : pmap.byValue.get? value = none) :
    (pmap.tokenFor value entityType).2 =
      pmap.insert (tokenText (entityOf entityType) (pmap.counter (entityOf entityType) + 1) pmap.tag) value
        (entityOf entityType) (pmap.counter (entityOf entityType) + 1) := by
  rw [PseudonymMap.tokenFor, h]

theorem counter_insert (token value entity other : Text) (n : ℕ) :
    (pmap.insert token value entity n).counter other = if entity = other then n else pmap.counter other := by
  change ((pmap.counters.insert entity n).get? other).getD 0 = _
  rw [Dict.get?_insert]
  by_cases he : entity = other
  · rw [if_pos (beq_iff_eq.mpr he), if_pos he]
    rfl
  · rw [if_neg (by rw [beq_iff_eq]; exact he), if_neg he]
    rfl

-- What a map writes for a new value is what reading it back would make of it.
theorem MapInvariant.readEntry (h : MapInvariant pmap) (value entity : Text) (hentity : isEntity entity = true)
    (hvalue : pmap.byValue.get? value = none) :
    pmap.readEntry (tokenText entity (pmap.counter entity + 1) pmap.tag) value =
      .ok (pmap.insert (tokenText entity (pmap.counter entity + 1) pmap.tag) value entity (pmap.counter entity + 1)) := by
  have htoken := (Dict.get?_eq_none_iff _ _).mp (h.fresh entity hentity)
  have hvalue := (Dict.get?_eq_none_iff _ _).mp hvalue
  rw [PseudonymMap.readEntry, fullmatchToken_tokenText entity pmap.tag _ (Nat.succ_ne_zero _) h.tagged hentity]
  refine (if_neg ?_).trans ?_
  · rw [htoken, hvalue]
    simp
  · rw [intOf_decimal _ (Nat.succ_ne_zero _), Nat.max_eq_right (Nat.le_succ _)]

theorem MapInvariant.insert (h : MapInvariant pmap) (value entity : Text) (hentity : isEntity entity = true)
    (hvalue : pmap.byValue.get? value = none) (hunjoined : Unjoined value) :
    MapInvariant (pmap.insert (tokenText entity (pmap.counter entity + 1) pmap.tag) value entity
      (pmap.counter entity + 1)) := by
  have hread := h.readEntry value entity hentity hvalue
  have hfresh := h.fresh entity hentity
  generalize htoken : tokenText entity (pmap.counter entity + 1) pmap.tag = token at hread hfresh ⊢
  have hentries : (pmap.byToken.insert token value).entries = pmap.byToken.entries ++ [(token, value)] :=
    Dict.entries_insert_of_fresh _ _ _ ((Dict.get?_eq_none_iff _ _).mp hfresh)
  refine ⟨h.tagged, ?_, fun other value' hget => ?_, fun other value' => ?_, fun entry he => ?_⟩
  · change (pmap.byToken.insert token value).entries.foldlM _ (newMap pmap.tag) = _
    rw [hentries, List.foldlM_append, h.rebuilt]
    change pmap.readEntry token value >>= pure = _
    rw [hread]
    rfl
  · change (pmap.byToken.insert token value).get? other = some value' at hget
    rw [Dict.get?_insert] at hget
    by_cases he : token = other
    · refine ⟨entity, pmap.counter entity + 1, hentity, Nat.succ_ne_zero _, ?_, ?_⟩
      · rw [← he]
        exact htoken.symm
      · rw [counter_insert, if_pos rfl]
    · rw [if_neg (by rw [beq_iff_eq]; exact he)] at hget
      obtain ⟨entity', n, hentity', hn, heq, hle⟩ := h.numbered other value' hget
      refine ⟨entity', n, hentity', hn, heq, ?_⟩
      rw [counter_insert]
      split_ifs with hsame
      · subst hsame
        omega
      · exact hle
  · change (pmap.byToken.insert token value).get? other = some value' ↔
      (pmap.byValue.insert value token).get? value' = some other
    rw [Dict.get?_insert, Dict.get?_insert]
    by_cases htok : token = other
    · by_cases hval : value = value'
      · rw [if_pos (beq_iff_eq.mpr htok), if_pos (beq_iff_eq.mpr hval), htok, hval]
        exact ⟨fun _ => rfl, fun _ => rfl⟩
      · rw [if_pos (beq_iff_eq.mpr htok), if_neg (by rw [beq_iff_eq]; exact hval), ← h.inverse, ← htok, hfresh,
          Option.some.injEq]
        exact ⟨fun he => absurd he hval, fun he => by cases he⟩
    · by_cases hval : value = value'
      · rw [if_neg (by rw [beq_iff_eq]; exact htok), if_pos (beq_iff_eq.mpr hval), h.inverse, ← hval, hvalue,
          Option.some.injEq]
        exact ⟨fun he => (by cases he), fun he => absurd he htok⟩
      · rw [if_neg (by rw [beq_iff_eq]; exact htok), if_neg (by rw [beq_iff_eq]; exact hval)]
        exact h.inverse other value'
  · change entry ∈ (pmap.byToken.insert token value).entries at he
    rw [hentries] at he
    rcases List.mem_append.mp he with he | he
    · exact h.unjoined entry he
    · rw [List.mem_singleton.mp he, ← htoken]
      exact ⟨tokenText_unjoined entity pmap.tag _ hentity h.tagged, hunjoined⟩

theorem MapInvariant.tokenFor (h : MapInvariant pmap) (value entityType : Text) (hunjoined : Unjoined value) :
    MapInvariant (pmap.tokenFor value entityType).2 := by
  cases hvalue : pmap.byValue.get? value with
  | some token =>
      rw [tokenFor_known value entityType token hvalue]
      exact h
  | none =>
      rw [tokenFor_new value entityType hvalue]
      exact h.insert value _ (entityOf_isEntity entityType) hvalue hunjoined

theorem MapInvariant.addAll (h : MapInvariant pmap) (additions : List (Text × Text))
    (hunjoined : ∀ addition ∈ additions, Unjoined addition.1) : MapInvariant (pmap.addAll additions) := by
  induction additions generalizing pmap with
  | nil => exact h
  | cons addition rest ih =>
      exact ih (h.tokenFor addition.1 addition.2 (hunjoined addition List.mem_cons_self))
        fun other ho => hunjoined other (List.mem_cons_of_mem _ ho)

end Invariants

section RoundTrip

variable {pmap : PseudonymMap}

def PseudonymMap.document (pmap : PseudonymMap) : Json :=
  .obj [(text "format", .int 1), (text "tag", .str pmap.tag),
    (text "entries", .arr (pmap.byToken.entries.map fun entry => .arr [.str entry.1, .str entry.2]))]

theorem reads_entry (depth : ℕ) (entry : Text × Text) (h : Unjoined entry.1 ∧ Unjoined entry.2) :
    Reads (scanValue (depth + 2)) (entryText entry) (.arr [.str entry.1, .str entry.2]) := by
  refine reads_array (depth + 1) [(quote entry.1, .str entry.1), (quote entry.2, .str entry.2)] fun item hi => ?_
  rcases List.mem_cons.mp hi with rfl | hi
  · exact reads_string depth entry.1 h.1
  · rw [List.mem_singleton.mp hi]
    exact reads_string depth entry.2 h.2

theorem MapInvariant.reads_document (h : MapInvariant pmap) (depth : ℕ) :
    Reads (scanValue (depth + 4)) pmap.toJson pmap.document := by
  have hentries : Reads (scanValue (depth + 3)) (arrayText (pmap.byToken.entries.map entryText))
      (.arr (pmap.byToken.entries.map fun entry => .arr [.str entry.1, .str entry.2])) := by
    have harray := reads_array (depth + 2)
      (pmap.byToken.entries.map fun entry => (entryText entry, .arr [.str entry.1, .str entry.2])) (by
        intro item hi
        obtain ⟨entry, he, rfl⟩ := List.mem_map.mp hi
        exact reads_entry depth entry (h.unjoined entry he))
    rw [List.map_map, List.map_map] at harray
    exact harray
  have htag := unjoined_of_ascii pmap.tag fun c hc => isTag_ascii pmap.tag h.tagged c hc
  refine reads_object (depth + 3) [((text "format", text "1"), .int 1), ((text "tag", quote pmap.tag), .str pmap.tag),
    ((text "entries", arrayText (pmap.byToken.entries.map entryText)),
      .arr (pmap.byToken.entries.map fun entry => .arr [.str entry.1, .str entry.2]))] (fun entry he => ?_)
    fun entry he => ?_
  · simp only [List.mem_cons, List.not_mem_nil, or_false] at he
    have hkeys : Unjoined (text "format") ∧ Unjoined (text "tag") ∧ Unjoined (text "entries") := by decide
    rcases he with rfl | rfl | rfl
    · exact hkeys.1
    · exact hkeys.2.1
    · exact hkeys.2.2
  · simp only [List.mem_cons, List.not_mem_nil, or_false] at he
    rcases he with rfl | rfl | rfl
    · exact reads_one (depth + 2)
    · exact reads_string (depth + 2) pmap.tag htag
    · exact hentries

theorem MapInvariant.loads_toJson (h : MapInvariant pmap) : loads pmap.toJson = some pmap.document := by
  have hlen : 3 ≤ pmap.toJson.length := by
    simp [PseudonymMap.toJson, objectText, joined, memberText, quote]
    omega
  obtain ⟨depth, hdepth⟩ : ∃ depth, pmap.toJson.length + 1 = depth + 4 := ⟨pmap.toJson.length - 3, by omega⟩
  have hmark : code '{' ≠ 0xFEFF := by decide
  refine loads_of_reads _ _ ?_ fun he => hmark (Option.some.inj he)
  rw [hdepth]
  exact h.reads_document depth

theorem MapInvariant.fromJson_toJson (h : MapInvariant pmap) : fromJson pmap.toJson = .ok pmap := by
  rw [fromJson, h.loads_toJson]
  have hformat : pmap.document.get? (text "format") = some (.int 1) := rfl
  have htag : pmap.document.get? (text "tag") = some (.str pmap.tag) := rfl
  have hentries : pmap.document.get? (text "entries") =
      some (.arr (pmap.byToken.entries.map fun entry => .arr [.str entry.1, .str entry.2])) := rfl
  change fromDocument pmap.document = _
  rw [fromDocument, hformat, htag, hentries]
  refine (if_pos rfl).trans ((if_pos h.tagged).trans ?_)
  rw [List.foldlM_map]
  exact h.rebuilt

end RoundTrip

section Runs

-- What a later map keeps of an earlier one.
structure PseudonymMap.Extended (before after : PseudonymMap) : Prop where
  byToken : ∀ token value, before.byToken.get? token = some value → after.byToken.get? token = some value
  byValue : ∀ value token, before.byValue.get? value = some token → after.byValue.get? value = some token
  counters : ∀ entity, before.counter entity ≤ after.counter entity

theorem PseudonymMap.Extended.refl (pmap : PseudonymMap) : pmap.Extended pmap :=
  ⟨fun _ _ h => h, fun _ _ h => h, fun _ => Nat.le_refl _⟩

theorem PseudonymMap.Extended.trans {a b c : PseudonymMap} (hab : a.Extended b) (hbc : b.Extended c) : a.Extended c :=
  ⟨fun token value h => hbc.byToken token value (hab.byToken token value h),
    fun value token h => hbc.byValue value token (hab.byValue value token h),
    fun entity => (hab.counters entity).trans (hbc.counters entity)⟩

variable {pmap : PseudonymMap}

theorem MapInvariant.extended_tokenFor (h : MapInvariant pmap) (value entityType : Text) :
    pmap.Extended (pmap.tokenFor value entityType).2 := by
  cases hvalue : pmap.byValue.get? value with
  | some token =>
      rw [tokenFor_known value entityType token hvalue]
      exact .refl pmap
  | none =>
      rw [tokenFor_new value entityType hvalue]
      have hfresh := h.fresh _ (entityOf_isEntity entityType)
      generalize tokenText (entityOf entityType) (pmap.counter (entityOf entityType) + 1) pmap.tag = token at hfresh
      refine ⟨fun other value' hget => ?_, fun value' other hget => ?_, fun entity => ?_⟩
      · refine (Dict.get?_insert pmap.byToken token other value).trans ((if_neg ?_).trans hget)
        rw [beq_iff_eq]
        rintro rfl
        rw [hfresh] at hget
        cases hget
      · refine (Dict.get?_insert pmap.byValue value value' token).trans ((if_neg ?_).trans hget)
        rw [beq_iff_eq]
        rintro rfl
        rw [hvalue] at hget
        cases hget
      · rw [counter_insert]
        split_ifs with he
        · subst he
          omega
        · exact Nat.le_refl _

theorem MapInvariant.extended_addAll (h : MapInvariant pmap) (additions : List (Text × Text))
    (hunjoined : ∀ addition ∈ additions, Unjoined addition.1) : pmap.Extended (pmap.addAll additions) := by
  induction additions generalizing pmap with
  | nil => exact .refl pmap
  | cons addition rest ih =>
      have hnext := h.tokenFor addition.1 addition.2 (hunjoined addition List.mem_cons_self)
      exact (h.extended_tokenFor addition.1 addition.2).trans
        (ih hnext fun other ho => hunjoined other (List.mem_cons_of_mem _ ho))

-- A map without entries keeps nothing, so a new one may take its place.
theorem MapInvariant.extended_newMap (h : MapInvariant pmap) (hempty : pmap.byToken.size = 0) (tag : Text) :
    pmap.Extended (newMap tag) := by
  have hentries : pmap.byToken.entries = [] := List.eq_nil_of_length_eq_zero hempty
  have hrebuilt := h.rebuilt
  rw [hentries] at hrebuilt
  have hnew : newMap pmap.tag = pmap := Except.ok.inj hrebuilt
  rw [← hnew]
  exact ⟨fun _ _ h => h, fun _ _ h => h, fun _ => Nat.le_refl _⟩

-- No value that is added has two code points that JSON would join.
def CaseStep.Unjoined : CaseStep → Prop
  | .load _ => True
  | .add _ _ additions => ∀ addition ∈ additions, JsonText.Unjoined addition.1

structure CaseInvariant (record : Case) : Prop where
  stored : ∀ raw, record.stored = some raw → ∃ pmap, MapInvariant pmap ∧ raw = pmap.toJson ∧
    ∀ held ∈ record.held, held.2.Extended pmap
  unstored : record.stored = none → record.held = []
  held : ∀ held ∈ record.held, MapInvariant held.2
  grows : record.held.Pairwise fun newer older => older.2.Extended newer.2
  unrefused : record.refusals = []

variable {record : Case}

theorem emptyCase_invariant : CaseInvariant emptyCase := by
  refine ⟨fun raw h => ?_, fun _ => rfl, fun held h => ?_, List.Pairwise.nil, rfl⟩
  · cases h
  · cases h

-- Every map that was handed out goes into the one that an add starts from.
theorem CaseInvariant.mapOrNew (h : CaseInvariant record) (tag : Tag) :
    ∃ pmap, mapOrNew record.stored tag = .ok pmap ∧ MapInvariant pmap ∧
      ∀ held ∈ record.held, held.2.Extended pmap := by
  cases hstored : record.stored with
  | none =>
      refine ⟨newMap tag, rfl, newMap_invariant tag tag.2, fun held hm => ?_⟩
      rw [h.unstored hstored] at hm
      cases hm
  | some raw =>
      obtain ⟨pmap, hmap, rfl, hheld⟩ := h.stored raw hstored
      have hread : Pii.mapOrNew (some pmap.toJson) tag =
          .ok (if pmap.byToken.size = 0 then newMap tag else pmap) := by
        change (fromJson pmap.toJson >>= fun pmap => _) = _
        rw [hmap.fromJson_toJson]
        rfl
      by_cases hempty : pmap.byToken.size = 0
      · rw [if_pos hempty] at hread
        exact ⟨_, hread, newMap_invariant tag tag.2, fun held hm => (hheld held hm).trans (hmap.extended_newMap hempty tag)⟩
      · rw [if_neg hempty] at hread
        exact ⟨pmap, hread, hmap, hheld⟩

theorem CaseInvariant.add (h : CaseInvariant record) (session : ℕ) (tag : Tag) (additions : List (Text × Text))
    (hunjoined : ∀ addition ∈ additions, Unjoined addition.1) : CaseInvariant (record.add session tag additions) := by
  obtain ⟨pmap, hread, hmap, hheld⟩ := h.mapOrNew tag
  have hunique : ∀ addition ∈ additions.eraseDups, Unjoined addition.1 :=
    fun addition ha => hunjoined addition (List.mem_eraseDups.mp ha)
  have hnext := hmap.addAll additions.eraseDups hunique
  have hextended := hmap.extended_addAll additions.eraseDups hunique
  rw [Case.add, hread]
  refine ⟨fun raw hraw => ⟨_, hnext, (Option.some.inj hraw).symm, fun held hm => ?_⟩, fun hnone => ?_,
    fun held hm => ?_, List.pairwise_cons.mpr ⟨fun held hm => ?_, h.grows⟩, h.unrefused⟩
  · rcases List.mem_cons.mp hm with rfl | hm
    · exact .refl _
    · exact (hheld held hm).trans hextended
  · cases hnone
  · rcases List.mem_cons.mp hm with rfl | hm
    · exact hnext
    · exact h.held held hm
  · exact (hheld held hm).trans hextended

theorem CaseInvariant.load (h : CaseInvariant record) (session : ℕ) : CaseInvariant (record.load session) := by
  cases hstored : record.stored with
  | none =>
      rw [Case.load, hstored]
      exact h
  | some raw =>
      obtain ⟨pmap, hmap, rfl, hheld⟩ := h.stored raw hstored
      have hload : record.load session = { record with held := (session, pmap) :: record.held } := by
        rw [Case.load, hstored, Option.map_some, hmap.fromJson_toJson]
      rw [hload]
      refine ⟨fun raw hraw => ⟨pmap, hmap, ?_, fun held hm => ?_⟩, fun hnone => ?_, fun held hm => ?_,
        List.pairwise_cons.mpr ⟨hheld, h.grows⟩, h.unrefused⟩
      · exact Option.some.inj (hraw.symm.trans hstored)
      · rcases List.mem_cons.mp hm with rfl | hm
        · exact .refl _
        · exact hheld held hm
      · cases hstored.symm.trans hnone
      · rcases List.mem_cons.mp hm with rfl | hm
        · exact hmap
        · exact h.held held hm

theorem CaseInvariant.run (h : CaseInvariant record) (steps : List CaseStep)
    (hunjoined : ∀ step ∈ steps, step.Unjoined) : CaseInvariant (record.run steps) := by
  induction steps generalizing record with
  | nil => exact h
  | cons step rest ih =>
      refine ih ?_ fun other ho => hunjoined other (List.mem_cons_of_mem _ ho)
      have hstep := hunjoined step List.mem_cons_self
      cases step with
      | load session => exact h.load session
      | add session tag additions => exact h.add session tag additions hstep

theorem CaseInvariant.extended (h : CaseInvariant record) (a b : ℕ × PseudonymMap) (ha : a ∈ record.held)
    (hb : b ∈ record.held) : a.2.Extended b.2 ∨ b.2.Extended a.2 := by
  have : Std.Symm fun a b : ℕ × PseudonymMap => a.2.Extended b.2 ∨ b.2.Extended a.2 := ⟨fun _ _ h => h.symm⟩
  have hpairs : record.held.Pairwise fun a b => a.2.Extended b.2 ∨ b.2.Extended a.2 :=
    h.grows.imp fun hba => .inr hba
  exact hpairs.forall_of_forall (fun x _ => .inl (.refl x.2)) ha hb

-- The values that a step adds.
def CaseStep.values : CaseStep → List Text
  | .load _ => []
  | .add _ _ additions => additions.map Prod.fst

-- The map that was given out last has a token for every value in the list.
def Case.Assigned (record : Case) (values : List Text) : Prop :=
  ∀ value ∈ values, ∃ newest, record.held.head? = some newest ∧ newest.2.byValue.contains value = true

theorem PseudonymMap.Extended.contains {before after : PseudonymMap} (h : before.Extended after) (value : Text)
    (hc : before.byValue.contains value = true) : after.byValue.contains value = true := by
  rw [← Dict.isSome_get?] at hc ⊢
  obtain ⟨token, ht⟩ := Option.isSome_iff_exists.mp hc
  rw [h.byValue value token ht]
  rfl

theorem contains_tokenFor (value entityType : Text) :
    (pmap.tokenFor value entityType).2.byValue.contains value = true := by
  cases hvalue : pmap.byValue.get? value with
  | some token =>
      rw [tokenFor_known value entityType token hvalue, ← Dict.isSome_get?, hvalue]
      rfl
  | none =>
      rw [tokenFor_new value entityType hvalue]
      exact (Dict.contains_insert pmap.byValue value value _).trans (by simp)

theorem MapInvariant.contains_addAll (h : MapInvariant pmap) (additions : List (Text × Text))
    (hunjoined : ∀ addition ∈ additions, Unjoined addition.1) (addition : Text × Text) (ha : addition ∈ additions) :
    (pmap.addAll additions).byValue.contains addition.1 = true := by
  induction additions generalizing pmap with
  | nil => cases ha
  | cons first rest ih =>
      have hnext := h.tokenFor first.1 first.2 (hunjoined first List.mem_cons_self)
      have hrest : ∀ other ∈ rest, Unjoined other.1 := fun other ho => hunjoined other (List.mem_cons_of_mem _ ho)
      rcases List.mem_cons.mp ha with rfl | ha
      · exact (hnext.extended_addAll rest hrest).contains _ (contains_tokenFor _ _)
      · exact ih hnext hrest ha

theorem CaseInvariant.assigned_add (h : CaseInvariant record) (values : List Text) (hv : record.Assigned values)
    (session : ℕ) (tag : Tag) (additions : List (Text × Text))
    (hunjoined : ∀ addition ∈ additions, Unjoined addition.1) :
    (record.add session tag additions).Assigned (values ++ additions.map Prod.fst) := by
  obtain ⟨pmap, hread, hmap, hheld⟩ := h.mapOrNew tag
  have hunique : ∀ addition ∈ additions.eraseDups, Unjoined addition.1 :=
    fun addition ha => hunjoined addition (List.mem_eraseDups.mp ha)
  rw [Case.add, hread]
  intro value hm
  refine ⟨_, rfl, ?_⟩
  rcases List.mem_append.mp hm with hm | hm
  · obtain ⟨newest, hn, hc⟩ := hv value hm
    have hextended := (hheld newest (List.mem_of_mem_head? hn)).trans (hmap.extended_addAll additions.eraseDups hunique)
    exact hextended.contains value hc
  · obtain ⟨addition, ha, rfl⟩ := List.mem_map.mp hm
    exact hmap.contains_addAll additions.eraseDups hunique addition (List.mem_eraseDups.mpr ha)

theorem CaseInvariant.assigned_load (h : CaseInvariant record) (values : List Text) (hv : record.Assigned values)
    (session : ℕ) : (record.load session).Assigned values := by
  cases hstored : record.stored with
  | none =>
      rw [Case.load, hstored]
      exact hv
  | some raw =>
      obtain ⟨pmap, hmap, rfl, hheld⟩ := h.stored raw hstored
      rw [Case.load, hstored, Option.map_some, hmap.fromJson_toJson]
      intro value hm
      obtain ⟨newest, hn, hc⟩ := hv value hm
      exact ⟨_, rfl, (hheld newest (List.mem_of_mem_head? hn)).contains value hc⟩

theorem CaseInvariant.assigned_run (h : CaseInvariant record) (values : List Text) (hv : record.Assigned values)
    (steps : List CaseStep) (hunjoined : ∀ step ∈ steps, step.Unjoined) :
    (record.run steps).Assigned (values ++ steps.flatMap CaseStep.values) := by
  induction steps generalizing record values with
  | nil =>
      rw [List.flatMap_nil, List.append_nil]
      exact hv
  | cons step rest ih =>
      have hstep := hunjoined step List.mem_cons_self
      have hrest : ∀ other ∈ rest, other.Unjoined := fun other ho => hunjoined other (List.mem_cons_of_mem _ ho)
      rw [List.flatMap_cons, ← List.append_assoc]
      cases step with
      | load session =>
          refine ih (h.load session) _ ?_ hrest
          rw [show (CaseStep.load session).values = [] from rfl, List.append_nil]
          exact h.assigned_load values hv session
      | add session tag additions =>
          exact ih (h.add session tag additions hstep) _ (h.assigned_add values hv session tag additions hstep) hrest

-- Tokens and values over every map that any session of the case was ever given.
structure Case.Consistent (record : Case) : Prop where
  grows : record.held.Pairwise fun newer older => older.2.Extended newer.2
  stored : ∀ raw, record.stored = some raw → ∃ pmap, fromJson raw = .ok pmap ∧
    ∀ held ∈ record.held, held.2.Extended pmap
  tokenKeepsValue : ∀ a ∈ record.held, ∀ b ∈ record.held, ∀ token value value',
    a.2.byToken.get? token = some value → b.2.byToken.get? token = some value' → value = value'
  valueKeepsToken : ∀ a ∈ record.held, ∀ b ∈ record.held, ∀ value token token',
    a.2.byValue.get? value = some token → b.2.byValue.get? value = some token' → token = token'
  oneToOne : ∀ a ∈ record.held, ∀ token value,
    a.2.byToken.get? token = some value ↔ a.2.byValue.get? value = some token
  countersGrow : record.held.Pairwise fun newer older => ∀ entity, older.2.counter entity ≤ newer.2.counter entity
  roundTrip : ∀ a ∈ record.held, fromJson a.2.toJson = .ok a.2
  unrefused : record.refusals = []

-- The pseudonyms of a case are consistent for ever, whatever its sessions add and in whatever order, as long as the
-- values survive a JSON text: no map loses what an earlier one had, and every value that was added has its token.
theorem pseudonyms_consistent (steps : List CaseStep) (hunjoined : ∀ step ∈ steps, step.Unjoined) :
    (emptyCase.run steps).Consistent ∧ (emptyCase.run steps).Assigned (steps.flatMap CaseStep.values) := by
  have h := emptyCase_invariant.run steps hunjoined
  refine ⟨⟨h.grows, fun raw hraw => ?_, fun a ha b hb token value value' hva hvb => ?_,
    fun a ha b hb value token token' hta htb => ?_,
    fun a ha => (h.held a ha).inverse, h.grows.imp fun hgrows => hgrows.counters,
    fun a ha => (h.held a ha).fromJson_toJson, h.unrefused⟩, ?_⟩
  · obtain ⟨pmap, hmap, rfl, hheld⟩ := h.stored raw hraw
    exact ⟨pmap, hmap.fromJson_toJson, hheld⟩
  · rcases h.extended a b ha hb with hab | hba
    · exact Option.some.inj ((hab.byToken token value hva).symm.trans hvb)
    · exact Option.some.inj (hva.symm.trans (hba.byToken token value' hvb))
  · rcases h.extended a b ha hb with hab | hba
    · exact Option.some.inj ((hab.byValue value token hta).symm.trans htb)
    · exact Option.some.inj (hta.symm.trans (hba.byValue value token' htb))
  · exact emptyCase_invariant.assigned_run [] (fun value hv => absurd hv List.not_mem_nil) steps hunjoined

instance (step : CaseStep) : Decidable step.Unjoined :=
  match step with
  | .load _ => inferInstanceAs (Decidable True)
  | .add _ _ _ => inferInstanceAs (Decidable (∀ addition ∈ _, _))

def firstTag : Tag := ⟨text "3fa9c2", by decide⟩

def secondTag : Tag := ⟨text "00c0de", by decide⟩

-- An add without additions stores a map without entries, and the next one starts anew.
def sharedSteps : List CaseStep :=
  [.load 0, .add 1 firstTag [], .add 0 secondTag [(text "Ana", text "PERSON"), (text "Ana", text "PERSON")],
    .add 1 firstTag [(text "ana@a.in", text "EMAIL_ADDRESS"), (text "Bo", text "person")], .load 2]

theorem pseudonyms_consistent_shared : (∀ step ∈ sharedSteps, step.Unjoined) ∧
    (emptyCase.run sharedSteps).Consistent ∧
    (emptyCase.run sharedSteps).Assigned [text "Ana", text "Ana", text "ana@a.in", text "Bo"] := by
  have hunjoined : ∀ step ∈ sharedSteps, step.Unjoined := by decide
  exact ⟨hunjoined, pseudonyms_consistent sharedSteps hunjoined⟩

-- Two lone surrogates and the character that JSON reads in their place.
def surrogateSteps : List CaseStep :=
  [.add 0 firstTag [([0xD83D, 0xDE00], text "PERSON"), ([0x1F600], text "PERSON")], .load 1]

theorem surrogates_refused : ¬(emptyCase.run surrogateSteps).Consistent := by
  intro h
  have hrefused : (emptyCase.run surrogateSteps).refusals = [.inconsistentEntry] := by decide +kernel
  rw [h.unrefused] at hrefused
  cases hrefused

end Runs

end AgenticOrg.Pii
