import AgenticOrg.Pii.Redaction

namespace AgenticOrg.Pii

open JsonText OrderedDict Splices

section Keeping

variable {β : Type} (clash : β → β → Bool)

theorem keepUnless_from (items kept : List β) (hsymm : ∀ a b, clash a b = clash b a)
    (h : kept.Pairwise fun a b => clash a b = false) :
    (items.foldl (fun kept item => if kept.any (clash item) then kept else kept ++ [item]) kept).Pairwise
      fun a b => clash a b = false := by
  induction items generalizing kept with
  | nil => exact h
  | cons item rest ih =>
      refine ih _ ?_
      dsimp only
      split
      · exact h
      · rename_i hnone
        refine List.pairwise_append.mpr ⟨h, List.pairwise_singleton _ _, fun other ho last hl => ?_⟩
        rw [List.mem_singleton.mp hl, hsymm, Bool.eq_false_iff]
        exact fun hclash => hnone (List.any_eq_true.mpr ⟨other, ho, hclash⟩)

theorem keepUnless_pairwise (items : List β) (hsymm : ∀ a b, clash a b = clash b a) :
    (keepUnless clash items).Pairwise fun a b => clash a b = false :=
  keepUnless_from clash items [] hsymm List.Pairwise.nil

theorem keepUnless_sublist_from (items kept : List β) :
    (items.foldl (fun kept item => if kept.any (clash item) then kept else kept ++ [item]) kept).Sublist
      (kept ++ items) := by
  induction items generalizing kept with
  | nil => rw [List.append_nil]; exact List.Sublist.refl _
  | cons item rest ih =>
      rw [List.foldl_cons]
      split
      · exact (ih kept).trans ((List.sublist_cons_self item rest).append_left kept)
      · have hnext := ih (kept ++ [item])
        rwa [List.append_assoc, List.singleton_append] at hnext

theorem keepUnless_sublist (items : List β) : (keepUnless clash items).Sublist items :=
  keepUnless_sublist_from clash items []

end Keeping

variable {source : Text}

section Spans

theorem overlaps_comm (a b : IdentifierMatch source) : overlaps a b = overlaps b a := Bool.and_comm _ _

theorem collides_eq (r k : AnalyzerResult source) :
    collides r k = overlaps r.toIdentifierMatch k.toIdentifierMatch := by
  have hr := r.nonempty
  have hk := k.nonempty
  rw [Bool.eq_iff_iff, overlaps_iff]
  simp only [collides, Bool.or_eq_true, Bool.and_eq_true, decide_eq_true_eq]
  omega

-- Spans in order none of which overlaps another follow each other.
theorem apart_of_disjoint (kept : List (IdentifierMatch source)) (hs : kept.Pairwise byStart)
    (hd : kept.Pairwise fun a b => overlaps a b = false) : Apart kept := by
  refine (hs.and hd).imp fun {a b} h => ?_
  obtain ⟨hstart, hnone⟩ := h
  by_contra hlt
  rw [Bool.eq_false_iff] at hnone
  have hb := b.nonempty
  unfold byStart at hstart
  exact hnone ((overlaps_iff a b).mpr ⟨by omega, by omega⟩)

theorem analyzedSpans_apart (results : List (AnalyzerResult source)) : Apart (analyzedSpans results) := by
  refine apart_of_disjoint _ (List.pairwise_insertionSort _ _) ?_
  have hkept : ((keepUnless collides (results.insertionSort widerFirst)).map AnalyzerResult.toIdentifierMatch).Pairwise
      fun a b => overlaps a b = false := by
    rw [List.pairwise_map]
    refine (keepUnless_pairwise collides _ fun a b => ?_).imp fun {a b} h => ?_
    · rw [collides_eq, collides_eq, overlaps_comm]
    · rw [← collides_eq]
      exact h
  refine (List.perm_insertionSort byStart _).symm.pairwise hkept fun {a b} h => ?_
  rw [overlaps_comm]
  exact h

theorem matchedSpans_apart (found : List (IdentifierMatch source)) : Apart (matchedSpans found) := by
  refine apart_of_disjoint _ ?_ (keepUnless_pairwise overlaps _ overlaps_comm)
  have htotal : Std.Total (@earlierFirst source) := ⟨fun a b => by unfold earlierFirst; omega⟩
  have htrans : IsTrans (IdentifierMatch source) earlierFirst :=
    ⟨fun a b c hab hbc => by unfold earlierFirst at *; omega⟩
  have hsorted : (found.insertionSort earlierFirst).Pairwise earlierFirst := List.pairwise_insertionSort _ _
  refine (hsorted.imp fun {a b} h => ?_).sublist (keepUnless_sublist overlaps _)
  unfold earlierFirst at h
  unfold byStart
  omega

end Spans

section Tokens

theorem decimal_injective (n m : ℕ) (hn : n ≠ 0) (hm : m ≠ 0) (h : decimal n = decimal m) : n = m := by
  rw [← intOf_decimal n hn, h, intOf_decimal m hm]

theorem underscore_not_mem (n : ℕ) : code '_' ∉ (decimal n).reverse := by
  intro h
  exact absurd (isDigit_decimal n _ (List.mem_reverse.mp h)) (by decide)

-- The number stands behind the last underscore, so the entity and the number can be read off a token.
theorem placeholder_inj (entity other : Text) (n m : ℕ) (hn : n ≠ 0) (hm : m ≠ 0)
    (h : placeholder entity n = placeholder other m) : entity = other ∧ n = m := by
  unfold placeholder at h
  obtain ⟨_, htail⟩ := List.cons.inj h
  have hbody := congrArg List.reverse (List.append_cancel_right htail)
  simp only [List.reverse_append, List.reverse_cons, List.append_assoc, List.singleton_append] at hbody
  have hdigits := closed_eq (code '_') _ _ _ _ (underscore_not_mem n) (underscore_not_mem m) hbody
  rw [hdigits] at hbody
  have hentity := (List.cons.inj (List.append_cancel_left hbody)).2
  exact ⟨List.reverse_injective hentity, decimal_injective n m hn hm (List.reverse_injective hdigits)⟩

theorem assignTokens_fst (kept : List (IdentifierMatch source)) (counters : Dict Text ℕ) :
    (assignTokens counters kept).map Prod.fst = kept := by
  induction kept generalizing counters with
  | nil => rfl
  | cons found rest ih => exact congrArg (found :: ·) (ih _)

-- A token's number is beyond what was counted for its entity.
theorem assignTokens_numbered (kept : List (IdentifierMatch source)) (counters : Dict Text ℕ)
    (assignment : IdentifierMatch source × Text) (h : assignment ∈ assignTokens counters kept) :
    ∃ n, (counters.get? assignment.1.entityType).getD 0 < n ∧
      assignment.2 = placeholder assignment.1.entityType n := by
  induction kept generalizing counters with
  | nil => cases h
  | cons found rest ih =>
      rcases List.mem_cons.mp h with rfl | h
      · exact ⟨_, Nat.lt_succ_self _, rfl⟩
      · obtain ⟨n, hn, htoken⟩ := ih _ h
        refine ⟨n, ?_, htoken⟩
        rw [Dict.get?_insert] at hn
        split at hn
        · rename_i hsame
          rw [← eq_of_beq hsame]
          exact Nat.lt_of_succ_lt hn
        · exact hn

theorem assignTokens_nodup (kept : List (IdentifierMatch source)) (counters : Dict Text ℕ) :
    ((assignTokens counters kept).map Prod.snd).Nodup := by
  induction kept generalizing counters with
  | nil => exact List.nodup_nil
  | cons found rest ih =>
      refine List.nodup_cons.mpr ⟨fun h => ?_, ih _⟩
      obtain ⟨assignment, ha, hsame⟩ := List.mem_map.mp h
      obtain ⟨n, hn, htoken⟩ := assignTokens_numbered rest _ assignment ha
      rw [htoken] at hsame
      obtain ⟨hentity, hcount⟩ := placeholder_inj _ _ _ _ (by omega) (by omega) hsame
      rw [hentity, Dict.get?_insert_self, hcount] at hn
      exact absurd hn (Nat.lt_irrefl _)

theorem placeholder_bracketed (entity : Text) (n : ℕ) (hopen : code '<' ∉ entity) (hclose : code '>' ∉ entity) :
    Bracketed (code '<') (code '>') (placeholder entity n) := by
  have hdigits : ∀ c, isDigit c = false → c ≠ code '_' → c ∉ entity → c ∉ entity ++ code '_' :: decimal n := by
    intro c hc hunderscore hentity hm
    rcases List.mem_append.mp hm with hm | hm
    · exact hentity hm
    · rcases List.mem_cons.mp hm with he | hm
      · exact hunderscore he
      · rw [isDigit_decimal n c hm] at hc
        cases hc
  exact ⟨entity ++ code '_' :: decimal n, rfl, hdigits _ (by decide) (by decide) hopen,
    hdigits _ (by decide) (by decide) hclose⟩

end Tokens

section Replacing

theorem byStart_laterFirst (assigned : List (IdentifierMatch source × Text)) (h : Apart (assigned.map Prod.fst)) :
    assigned.insertionSort laterFirst = assigned.reverse := by
  have htotal : Std.Total (@laterFirst source) := ⟨fun a b => Nat.le_total _ _⟩
  have htrans : IsTrans (IdentifierMatch source × Text) laterFirst := ⟨fun _ _ _ hab hbc => Nat.le_trans hbc hab⟩
  have hstarts : assigned.Pairwise fun a b => a.1.start < b.1.start := by
    have hpairs := Apart.starts _ h
    rwa [List.pairwise_map] at hpairs
  have hreverse : assigned.reverse.Pairwise fun a b => b.1.start < a.1.start := List.pairwise_reverse.mpr hstarts
  have hsorted : (assigned.insertionSort laterFirst).Pairwise laterFirst := List.pairwise_insertionSort _ _
  refine ((List.perm_insertionSort laterFirst _).trans assigned.reverse_perm.symm).eq_of_pairwise ?_ hsorted
    (hreverse.imp fun hlt => Nat.le_of_lt hlt)
  intro a b ha hb hab hba
  have hinj : (assigned.map fun assignment => assignment.1.start).Nodup :=
    List.pairwise_map.mpr (hstarts.imp fun hlt => Nat.ne_of_lt hlt)
  exact List.inj_on_of_nodup_map hinj ((List.perm_insertionSort laterFirst _).mem_iff.mp ha) (List.mem_reverse.mp hb)
    (Nat.le_antisymm hba hab)

def sliceOf (found : IdentifierMatch source) : Text := (source.drop found.start).take (found.stop - found.start)

def editsOf (assigned : List (IdentifierMatch source × Text)) : List (Edit CodePoint) :=
  assigned.map fun assignment => ⟨assignment.1.start, assignment.1.stop, assignment.2⟩

theorem editsOf_ordered (assigned : List (IdentifierMatch source × Text)) (cursor : ℕ)
    (h : Apart (assigned.map Prod.fst)) (hcursor : ∀ assignment ∈ assigned, cursor ≤ assignment.1.start) :
    Ordered source.length cursor (editsOf assigned) := by
  induction assigned generalizing cursor with
  | nil => trivial
  | cons assignment rest ih =>
      obtain ⟨hfirst, hrest⟩ := List.pairwise_cons.mp h
      exact ⟨hcursor assignment List.mem_cons_self, assignment.1.nonempty, assignment.1.inside,
        ih assignment.1.stop hrest fun other ho => hfirst other.1 (List.mem_map_of_mem ho)⟩

-- From the end, each span still stands where it was: the text comes out spliced, and each token maps to its span.
theorem foldr_replaceOne (assigned : List (IdentifierMatch source × Text)) (cursor : ℕ) (hcursor : cursor ≤ source.length)
    (h : Ordered source.length cursor (editsOf assigned)) (hn : (assigned.map Prod.snd).Nodup) :
    (assigned.foldr (fun assignment redacted => replaceOne redacted assignment) (source, Dict.empty)).1 =
        source.take cursor ++ splice source cursor (editsOf assigned) ∧
      (assigned.foldr (fun assignment redacted => replaceOne redacted assignment) (source, Dict.empty)).2.entries =
        (assigned.map fun assignment => (assignment.2, sliceOf assignment.1)).reverse := by
  induction assigned generalizing cursor with
  | nil => exact ⟨(List.take_append_drop cursor source).symm, rfl⟩
  | cons assignment rest ih =>
      obtain ⟨hstart, hlt, hstop, hrest⟩ := h
      obtain ⟨hfresh, hn⟩ := List.nodup_cons.mp hn
      obtain ⟨htext, hentries⟩ := ih assignment.1.stop hstop hrest hn
      rw [List.foldr_cons]
      generalize rest.foldr (fun assignment redacted => replaceOne redacted assignment) (source, Dict.empty) = redacted
        at htext hentries ⊢
      constructor
      · have hall := foldr_replaceAt source (editsOf (assignment :: rest)) cursor hcursor ⟨hstart, hlt, hstop, hrest⟩
        rw [← hall, editsOf, List.map_cons, List.foldr_cons]
        have htail := foldr_replaceAt source (editsOf rest) assignment.1.stop hstop hrest
        rw [editsOf] at htail
        rw [htail, ← editsOf, ← htext]
        rfl
      · have hkeys : redacted.2.contains assignment.2 = false := by
          rw [Bool.eq_false_iff]
          intro hin
          obtain ⟨found, hfound, hsame⟩ := (Dict.contains_iff _ _).mp hin
          rw [Dict.keys, hentries, List.map_reverse, List.mem_reverse, List.map_map, eq_of_beq hsame] at hfound
          exact hfresh hfound
        have hslice : (redacted.1.drop assignment.1.start).take (assignment.1.stop - assignment.1.start) =
            sliceOf assignment.1 := by
          rw [htext, slice_replaced source _ _ _ hstop, sliceOf]
        rw [replaceOne, Dict.entries_insert_of_fresh _ _ _ hkeys, hentries, hslice, List.map_cons, List.reverse_cons]

end Replacing

section Main

variable (kept : List (IdentifierMatch source))

theorem redactions_ordered (h : Apart kept) : Ordered source.length 0 (redactions kept) :=
  editsOf_ordered _ 0 (by rw [assignTokens_fst]; exact h) fun _ _ => Nat.zero_le _

theorem redactSpans_eq (h : Apart kept) :
    (redactSpans kept).1 = targetOf (layout source 0 (redactions kept)) ∧
      (redactSpans kept).2.entries =
        ((assignTokens Dict.empty kept).map fun assignment => (assignment.2, sliceOf assignment.1)).reverse := by
  have hfst : Apart ((assignTokens Dict.empty kept).map Prod.fst) := by
    rw [assignTokens_fst]
    exact h
  obtain ⟨htext, hentries⟩ := foldr_replaceOne (assignTokens Dict.empty kept) 0 (Nat.zero_le _)
    (redactions_ordered kept h) (assignTokens_nodup kept _)
  unfold redactSpans
  rw [byStart_laterFirst _ hfst, List.foldl_reverse, targetOf_layout]
  exact ⟨htext, hentries⟩

theorem redactSpans_keys (h : Apart kept) : (redactSpans kept).2.keys = (tokensOf kept).reverse := by
  rw [Dict.keys, (redactSpans_eq kept h).2, List.map_reverse, List.map_map]
  rfl

theorem placeholder_ne (entity : Text) (n : ℕ) : placeholder entity n ≠ [] := List.cons_ne_nil _ _

theorem mem_redactions_ne (edit : Edit CodePoint) (he : edit ∈ redactions kept) : edit.target ≠ [] := by
  obtain ⟨assignment, ha, rfl⟩ := List.mem_map.mp he
  obtain ⟨n, _, htoken⟩ := assignTokens_numbered kept _ assignment ha
  show assignment.2 ≠ []
  rw [htoken]
  exact placeholder_ne _ n

-- What is read as tokens is what was put in exactly if no token is read elsewhere; then the text comes back.
theorem redactSpans_restores_iff (h : Apart kept) : Restores kept (redactSpans kept) ↔ Undisturbed kept := by
  obtain ⟨htext, hentries⟩ := redactSpans_eq kept h
  have hne : ∀ value target, .swap value target ∈ layout source 0 (redactions kept) → target ≠ [] := by
    intro value target hm
    obtain ⟨edit, he, _, rfl⟩ := (mem_layout source _ _ _ _).mp hm
    exact mem_redactions_ne kept edit he
  have hparts := parts_eq_iff (tokensOf kept).reverse (layout source 0 (redactions kept)) hne
  refine ⟨fun hr => ?_, fun hclear => ⟨h.disjoint, ?_, ?_⟩⟩
  · have huntouched := hr.untouched
    rw [redactSpans_keys kept h, htext] at huntouched
    exact hparts.mp huntouched
  · have hsource := sourceOf_layout source _ 0 (redactions_ordered kept h)
    unfold deanonymize
    split
    · rename_i hsize
      have hnone : kept = [] := by
        rw [Dict.size, hentries, List.length_reverse, List.length_map] at hsize
        rw [← assignTokens_fst kept Dict.empty, List.eq_nil_of_length_eq_zero hsize]
        rfl
      subst hnone
      rfl
    · rw [redactSpans_keys kept h, htext,
        substitute_eq _ _ _ (hparts.mpr hclear) fun value target hm => ?_]
      · exact hsource
      · obtain ⟨edit, he, rfl, rfl⟩ := (mem_layout source _ _ _ _).mp hm
        obtain ⟨assignment, ha, rfl⟩ := List.mem_map.mp he
        have hget := Dict.get?_of_mem (redactSpans kept).2 (assignment.2, sliceOf assignment.1) (by
          rw [hentries, List.mem_reverse]
          exact List.mem_map_of_mem ha)
        rw [hget]
        rfl
  · rw [redactSpans_keys kept h, htext]
    exact hparts.mpr hclear

-- Nothing was found: the text is as it was.
theorem unredacted_restores_iff (hk : kept = []) :
    Restores kept (source, Dict.empty) ↔ Undisturbed kept := by
  subst hk
  exact redactSpans_restores_iff [] List.Pairwise.nil

-- For entities without angle brackets: wherever a token stands in the text, some of it is redacted.
theorem undisturbed_iff (h : Apart kept)
    (hplain : ∀ found ∈ kept, code '<' ∉ found.entityType ∧ code '>' ∉ found.entityType) :
    Undisturbed kept ↔ ∀ token ∈ tokensOf kept, ∀ place, token <+: source.drop place →
      ∃ found ∈ kept, found.start < place + token.length ∧ place < found.stop := by
  have hbracketed : ∀ token ∈ (tokensOf kept).reverse, Bracketed (code '<') (code '>') token := by
    intro token ht
    obtain ⟨assignment, ha, rfl⟩ := List.mem_map.mp (List.mem_reverse.mp ht)
    obtain ⟨n, _, htoken⟩ := assignTokens_numbered kept _ assignment ha
    have hfound : assignment.1 ∈ kept := by
      rw [← assignTokens_fst kept Dict.empty]
      exact List.mem_map_of_mem ha
    rw [htoken]
    exact placeholder_bracketed _ n (hplain _ hfound).1 (hplain _ hfound).2
  have hswaps : ∀ value target, .swap value target ∈ layout source 0 (redactions kept) →
      target ∈ (tokensOf kept).reverse := by
    intro value target hm
    obtain ⟨edit, he, _, rfl⟩ := (mem_layout source _ _ _ _).mp hm
    obtain ⟨assignment, ha, rfl⟩ := List.mem_map.mp he
    exact List.mem_reverse.mpr (List.mem_map_of_mem ha)
  have hspans : ∀ (place size : ℕ),
      (∀ edit ∈ redactions kept, place + size ≤ edit.start ∨ edit.stop ≤ place) ↔
        ∀ found ∈ kept, place + size ≤ found.start ∨ found.stop ≤ place := by
    intro place size
    conv_rhs => rw [← assignTokens_fst kept Dict.empty]
    simp only [redactions, List.forall_mem_map]
  rw [Undisturbed, clear_iff (code '<') (code '>') (by decide) _ _ hbracketed hswaps]
  simp only [List.mem_reverse]
  refine forall₂_congr fun token ht => ?_
  have hne : token ≠ [] := by
    obtain ⟨body, rfl, _⟩ := hbracketed token (List.mem_reverse.mpr ht)
    exact List.cons_ne_nil _ _
  rw [keep_infix_layout token hne source _ 0 (Nat.zero_le _) (redactions_ordered kept h)]
  constructor
  · intro hnone place hstands
    by_contra hclear
    refine hnone ⟨place, Nat.zero_le _, hstands, (hspans place token.length).mpr fun found hf => ?_⟩
    by_contra hover
    exact hclear ⟨found, hf, by omega, by omega⟩
  · rintro hall ⟨place, _, hstands, hclear⟩
    obtain ⟨found, hf, hstart, hstop⟩ := hall place hstands
    rcases (hspans place token.length).mp hclear found hf with hbefore | hafter
    · omega
    · omega

-- Both ways of redacting, for any results there may be.
theorem redaction_restores_iff (source : Text) (results : List (AnalyzerResult source))
    (found : List (IdentifierMatch source)) :
    (Restores (analyzedSpans results) (redact results) ↔ Undisturbed (analyzedSpans results)) ∧
      (Restores (matchedSpans found) (regexFallbackRedact found) ↔ Undisturbed (matchedSpans found)) ∧
      ∀ kept : List (IdentifierMatch source), Apart kept →
        (∀ found ∈ kept, code '<' ∉ found.entityType ∧ code '>' ∉ found.entityType) →
        (Undisturbed kept ↔ ∀ token ∈ tokensOf kept, ∀ place, token <+: source.drop place →
          ∃ found ∈ kept, found.start < place + token.length ∧ place < found.stop) := by
  refine ⟨?_, ?_, fun kept h hplain => undisturbed_iff kept h hplain⟩
  · unfold redact
    split
    · rename_i hnone
      exact unredacted_restores_iff _ (by rw [List.isEmpty_iff.mp hnone]; rfl)
    · exact redactSpans_restores_iff _ (analyzedSpans_apart results)
  · unfold regexFallbackRedact
    split
    · rename_i hnone
      exact unredacted_restores_iff _ (List.isEmpty_iff.mp hnone)
    · exact redactSpans_restores_iff _ (matchedSpans_apart found)

end Main

section Sample

-- A name behind a text that looks like its token.
def quotedText : Text := text "<PERSON_1> met Ana"

def quotedName : AnalyzerResult quotedText where
  start := 15
  stop := 18
  entityType := text "PERSON"
  nonempty := by decide
  inside := by decide
  score := 1

-- The text's own token is turned into the name.
theorem quoted_token_replaced :
    ¬Restores (analyzedSpans [quotedName]) (redact [quotedName]) ∧
      deanonymize (redact [quotedName]).1 (redact [quotedName]).2 = text "Ana met Ana" := by
  have hread : deanonymize (redact [quotedName]).1 (redact [quotedName]).2 = text "Ana met Ana" := by decide +kernel
  refine ⟨fun h => ?_, hread⟩
  have hsame := hread.symm.trans h.restored
  exact absurd hsame (by decide +kernel)

-- Two people, one of them named twice, and what looks like the token of a ninth name.
def letterText : Text := text "Ana wrote Bob, who met Ana with <PERSON_9>"

def letterNames : List (AnalyzerResult letterText) :=
  [⟨⟨10, 13, text "PERSON", by decide, by decide⟩, 1⟩, ⟨⟨0, 3, text "PERSON", by decide, by decide⟩, 1⟩,
    ⟨⟨23, 26, text "PERSON", by decide, by decide⟩, 1⟩]

theorem letter_names_restored :
    (redact letterNames).1 = text "<PERSON_1> wrote <PERSON_2>, who met <PERSON_3> with <PERSON_9>" ∧
      Restores (analyzedSpans letterNames) (redact letterNames) := by
  have hrestores := redaction_restores_iff letterText letterNames []
  have hplain : ∀ found ∈ analyzedSpans letterNames,
      code '<' ∉ found.entityType ∧ code '>' ∉ found.entityType := by decide +kernel
  -- none of the three tokens stands in the letter
  have habsent : ∀ token ∈ tokensOf (analyzedSpans letterNames), token.length = 10 ∧
      ∀ place < letterText.length, ¬token <+: letterText.drop place := by decide +kernel
  refine ⟨by decide +kernel, hrestores.1.mpr ((hrestores.2.2 _ (analyzedSpans_apart _) hplain).mpr
    fun token ht place hstands => ?_)⟩
  obtain ⟨hten, hnone⟩ := habsent token ht
  have hlength := hstands.length_le
  rw [List.length_drop, hten] at hlength
  exact absurd hstands (hnone place (by omega))

end Sample

end AgenticOrg.Pii
