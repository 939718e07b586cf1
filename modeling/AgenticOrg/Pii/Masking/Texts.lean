import AgenticOrg.Pii.Masking
import AgenticOrg.Pii.Pseudonyms.Theorems

namespace AgenticOrg.Pii

open JsonText OrderedDict Splices

section Pieces

theorem pieces_skip (x y : Text) : pieces x.length (x ++ y) = pieces 0 y := by
  induction x with
  | nil => rfl
  | cons c rest ih =>
      rw [List.length_cons, List.cons_append, pieces]
      exact ih

theorem TokenMatch.Valid.not_open {found : TokenMatch} (h : found.Valid) :
    ∃ body, found.text = code '[' :: code '[' :: body ∧ code '[' ∉ body ∧ body ≠ [] := by
  have htext := TokenMatch.text_append found []
  rw [List.append_nil] at htext
  refine ⟨_, htext, fun hm => ?_, by simp⟩
  simp only [List.mem_append, List.mem_cons, List.append_nil] at hm
  obtain ⟨first, more, hdigits, hfirst, _, hmore⟩ := h.digits
  rcases hm with hm | hm | hm | hm | hm | hm
  · exact absurd (isEntity_chars _ h.entity _ hm) (by decide)
  · exact absurd hm (by decide)
  · rw [hdigits] at hm
    rcases List.mem_cons.mp hm with rfl | hm
    · exact absurd hfirst (by decide)
    · exact absurd (hmore _ hm) (by decide)
  · exact absurd hm (by decide)
  · exact absurd (List.all_eq_true.mp ((isTag_iff _).mp h.tag).2 _ hm) (by decide)
  · exact absurd hm (by decide)

theorem pieces_text (found : TokenMatch) (h : found.Valid) (y : Text) :
    pieces 0 (found.text ++ y) = .token found :: pieces 0 y := by
  obtain ⟨body, htext, _, _⟩ := h.not_open
  have hmatch : matchToken (found.text ++ y) = some (found, y) := (matchToken_iff _ _ _).mpr ⟨h, rfl⟩
  have hskip := pieces_skip (code '[' :: body) y
  rw [htext] at hmatch ⊢
  rw [List.cons_append, pieces, ← List.cons_append, hmatch]
  change Piece.token found :: pieces (found.text.length - 1) _ = _
  rw [htext]
  exact congrArg _ hskip

-- No token reaches from the text before another token into it.
theorem matchToken_before (x y : Text) (hx : x ≠ []) (found : TokenMatch) (h : found.Valid) :
    matchToken (x ++ (found.text ++ y)) = (matchToken x).map fun other => (other.1, other.2 ++ (found.text ++ y)) := by
  obtain ⟨body, htext, _, _⟩ := h.not_open
  cases hmatch : matchToken x with
  | some other =>
      obtain ⟨hvalid, hx⟩ := (matchToken_iff x other.2 other.1).mp hmatch
      exact (matchToken_iff _ _ _).mpr ⟨hvalid, by rw [hx, List.append_assoc]⟩
  | none =>
      cases hlong : matchToken (x ++ (found.text ++ y)) with
      | none => rfl
      | some other =>
          obtain ⟨hvalid, hsplit⟩ := (matchToken_iff _ other.2 other.1).mp hlong
          have hnone : ∀ rest, x ≠ other.1.text ++ rest := by
            intro rest hrest
            rw [(matchToken_iff x rest other.1).mpr ⟨hvalid, hrest⟩] at hmatch
            cases hmatch
          rcases List.append_eq_append_iff.mp hsplit with ⟨a, hother, ha⟩ | ⟨rest, hrest, _⟩
          · obtain ⟨body', htext', hopen, hbody⟩ := hvalid.not_open
            obtain ⟨c, x', rfl⟩ := List.exists_cons_of_ne_nil hx
            cases a with
            | nil => exact absurd (by rw [hother]; simp) (hnone [])
            | cons d a' =>
                -- The other token would hold a bracket that only its own start has.
                simp only [htext, List.cons_append, List.cons.injEq] at ha
                simp only [htext', List.cons_append, List.cons.injEq] at hother
                obtain ⟨rfl, ha⟩ := ha
                cases x' with
                | nil =>
                    simp only [List.nil_append, List.cons.injEq] at hother
                    cases a' with
                    | nil => exact absurd hother.2.2 hbody
                    | cons e a'' =>
                        simp only [List.cons_append, List.cons.injEq] at ha
                        exact absurd (by rw [hother.2.2, ← ha.1]; exact List.mem_cons_self) hopen
                | cons e x'' =>
                    simp only [List.cons_append, List.cons.injEq] at hother
                    exact absurd (by rw [hother.2.2]; simp) hopen
          · exact absurd hrest (hnone rest)

theorem pieces_append_text (x y : Text) (found : TokenMatch) (h : found.Valid) :
    pieces 0 (x ++ (found.text ++ y)) = pieces 0 x ++ .token found :: pieces 0 y := by
  induction hlen : x.length using Nat.strong_induction_on generalizing x with
  | _ n ih =>
      cases x with
      | nil => exact pieces_text found h y
      | cons c x' =>
          have hbefore := matchToken_before (c :: x') y (List.cons_ne_nil _ _) found h
          cases hmatch : matchToken (c :: x') with
          | none =>
              rw [hmatch] at hbefore
              have hshort := ih x'.length (by rw [← hlen]; simp) x' rfl
              rw [List.cons_append] at hbefore ⊢
              rw [pieces, hbefore, pieces, hmatch]
              exact congrArg _ hshort
          | some other =>
              obtain ⟨hvalid, hx⟩ := (matchToken_iff _ other.2 other.1).mp hmatch
              have hpos : 0 < other.1.text.length := by
                obtain ⟨body, htext, _, _⟩ := hvalid.not_open
                rw [htext]
                simp
              have hshort := ih other.2.length (by rw [← hlen, hx, List.length_append]; omega) other.2 rfl
              rw [hx, List.append_assoc, pieces_text _ hvalid, pieces_text _ hvalid, hshort]
              rfl

theorem pieces_flatMap (x : Text) : (pieces 0 x).flatMap Piece.text = x := by
  induction hlen : x.length using Nat.strong_induction_on generalizing x with
  | _ n ih =>
      cases x with
      | nil => rfl
      | cons c x' =>
          cases hmatch : matchToken (c :: x') with
          | none =>
              rw [pieces, hmatch]
              exact congrArg _ (ih x'.length (by rw [← hlen]; simp) x' rfl)
          | some other =>
              obtain ⟨hvalid, hx⟩ := (matchToken_iff _ other.2 other.1).mp hmatch
              have hpos : 0 < other.1.text.length := by
                obtain ⟨body, htext, _, _⟩ := hvalid.not_open
                rw [htext]
                simp
              have hshort := ih other.2.length (by rw [← hlen, hx, List.length_append]; omega) other.2 rfl
              rw [hx, pieces_text _ hvalid]
              exact congrArg _ hshort

theorem mem_tokenSpans (offset : ℕ) (before after : List Piece) (found : TokenMatch) :
    (offset + (before.flatMap Piece.text).length, offset + (before.flatMap Piece.text).length + found.text.length) ∈
      tokenSpans offset (before ++ .token found :: after) := by
  induction before generalizing offset with
  | nil => exact List.mem_cons_self
  | cons piece rest ih =>
      rw [List.flatMap_cons, List.length_append, List.cons_append]
      cases piece with
      | char c =>
          have hrest := ih (offset + 1)
          rw [tokenSpans]
          change (offset + (1 + _), offset + (1 + _) + _) ∈ _
          rw [← Nat.add_assoc]
          exact hrest
      | token other =>
          have hrest := ih (offset + other.text.length)
          rw [tokenSpans]
          change (offset + (other.text.length + _), offset + (other.text.length + _) + _) ∈ _
          rw [← Nat.add_assoc]
          exact List.mem_cons_of_mem _ hrest

end Pieces

section Overlaps

variable {source : Text}

def Apart (kept : List (IdentifierMatch source)) : Prop := kept.Pairwise fun a b => a.stop ≤ b.start

theorem Apart.stop_le (kept : List (IdentifierMatch source)) (h : Apart kept) (limit : ℕ)
    (hlast : ∀ last ∈ kept.getLast?, last.stop ≤ limit) (found : IdentifierMatch source) (hf : found ∈ kept) :
    found.stop ≤ limit := by
  rcases List.eq_nil_or_concat kept with rfl | ⟨init, last, rfl⟩
  · exact absurd hf List.not_mem_nil
  · rw [List.concat_eq_append] at h hlast hf
    have hlimit := hlast last (by simp)
    rcases List.mem_append.mp hf with hf | hf
    · have hnext := (List.pairwise_append.mp h).2.2 found hf last (List.mem_singleton.mpr rfl)
      have := last.nonempty
      omega
    · rw [List.mem_singleton.mp hf]
      exact hlimit

theorem Apart.le_start (kept : List (IdentifierMatch source)) (h : Apart kept) (limit : ℕ)
    (hhead : ∀ first ∈ kept.head?, limit ≤ first.start) (found : IdentifierMatch source) (hf : found ∈ kept) :
    limit ≤ found.start := by
  cases kept with
  | nil => exact absurd hf List.not_mem_nil
  | cons first rest =>
      have hlimit := hhead first rfl
      rcases List.mem_cons.mp hf with rfl | hf
      · exact hlimit
      · have hnext := (List.pairwise_cons.mp h).1 found hf
        have := first.nonempty
        omega

theorem Apart.keepMatch {kept : List (IdentifierMatch source)} (h : Apart kept) (candidate : IdentifierMatch source) :
    Apart (keepMatch kept candidate) := by
  unfold Pii.keepMatch
  generalize (kept.takeWhile (·.start ≤ candidate.start)).length = index
  dsimp only
  have hsplit := List.take_append_drop index kept
  generalize kept.take index = before at hsplit ⊢
  generalize kept.drop index = after at hsplit ⊢
  split_ifs with hbefore hafter
  · exact h
  · exact h
  · subst hsplit
    obtain ⟨hb, ha, hba⟩ := List.pairwise_append.mp h
    have hlast : ∀ found ∈ before, found.stop ≤ candidate.start := by
      refine Apart.stop_le before hb candidate.start fun last hl => ?_
      by_contra hlt
      exact hbefore (by rw [Option.mem_def.mp hl]; simpa using hlt)
    have hfirst : ∀ found ∈ after, candidate.stop ≤ found.start := by
      refine Apart.le_start after ha candidate.stop fun first hf => ?_
      by_contra hlt
      exact hafter (by rw [Option.mem_def.mp hf]; simpa using hlt)
    refine List.pairwise_append.mpr ⟨hb, List.pairwise_cons.mpr ⟨hfirst, ha⟩, fun a hma b hmb => ?_⟩
    rcases List.mem_cons.mp hmb with rfl | hmb
    · exact hlast a hma
    · exact hba a hma b hmb

theorem mem_keepMatch (kept : List (IdentifierMatch source)) (candidate found : IdentifierMatch source)
    (h : found ∈ keepMatch kept candidate) : found ∈ kept ∨ found = candidate := by
  unfold Pii.keepMatch at h
  generalize (kept.takeWhile (·.start ≤ candidate.start)).length = index at h
  dsimp only at h
  split_ifs at h
  · exact .inl h
  · exact .inl h
  · rcases List.mem_append.mp h with h | h
    · exact .inl (List.mem_of_mem_take h)
    · rcases List.mem_cons.mp h with rfl | h
      · exact .inr rfl
      · exact .inl (List.mem_of_mem_drop h)

-- What is kept lies apart and in order, whatever was reported.
theorem resolveOverlaps_apart (found : List (IdentifierMatch source)) : Apart (resolveOverlaps found) := by
  have hfold : ∀ (candidates kept : List (IdentifierMatch source)), Apart kept →
      Apart (candidates.foldl keepMatch kept) := by
    intro candidates
    induction candidates with
    | nil => exact fun _ h => h
    | cons candidate rest ih => exact fun kept h => ih _ (h.keepMatch candidate)
  exact hfold _ [] List.Pairwise.nil

theorem mem_resolveOverlaps (found : List (IdentifierMatch source)) (finding : IdentifierMatch source)
    (h : finding ∈ resolveOverlaps found) : finding ∈ found := by
  have hfold : ∀ (candidates kept : List (IdentifierMatch source)), finding ∈ candidates.foldl keepMatch kept →
      finding ∈ kept ∨ finding ∈ candidates := by
    intro candidates
    induction candidates with
    | nil => exact fun _ h => .inl h
    | cons candidate rest ih =>
        intro kept h
        rcases ih _ h with h | h
        · rcases mem_keepMatch kept candidate finding h with h | rfl
          · exact .inl h
          · exact .inr List.mem_cons_self
        · exact .inr (List.mem_cons_of_mem _ h)
  rcases hfold _ [] h with h | h
  · exact absurd h List.not_mem_nil
  · exact (List.mem_insertionSort _).mp h

theorem Apart.ordered (pmap : Option PseudonymMap) (found : List (IdentifierMatch source)) (h : Apart found)
    (cursor : ℕ) (hcursor : ∀ finding ∈ found, cursor ≤ finding.start) :
    Ordered source.length cursor (found.map (editOf pmap)) := by
  induction found generalizing cursor with
  | nil => trivial
  | cons finding rest ih =>
      obtain ⟨hfirst, hrest⟩ := List.pairwise_cons.mp h
      exact ⟨hcursor finding List.mem_cons_self, finding.nonempty, finding.inside, ih hrest finding.stop hfirst⟩

end Overlaps

section Applying

variable {pmap : PseudonymMap}

-- Whatever was put in is the token of what it was put in for.
def Swapped (pmap : Option PseudonymMap) (segments : List (Segment CodePoint)) : Prop :=
  ∀ value token, .swap value token ∈ segments → valueToken pmap value = some token

def PseudonymMap.Filled (pmap : PseudonymMap) : Prop := ∀ value token, pmap.byValue.get? value = some token → value ≠ []

theorem MapInvariant.valid (h : MapInvariant pmap) (token : Text) (hc : ∃ value, pmap.byToken.get? token = some value) :
    ∃ found, TokenMatch.Valid found ∧ token = found.text ∧ found.tag = pmap.tag := by
  obtain ⟨value, hget⟩ := hc
  obtain ⟨entity, n, hentity, hn, rfl, _⟩ := h.numbered token value hget
  exact ⟨_, valid_decimal entity pmap.tag n hn h.tagged hentity, rfl, rfl⟩

theorem Swapped.valid (h : MapInvariant pmap) (segments : List (Segment CodePoint))
    (hs : Swapped (some pmap) segments) (value token : Text) (hm : .swap value token ∈ segments) :
    ∃ found, TokenMatch.Valid found ∧ token = found.text ∧ found.tag = pmap.tag :=
  h.valid token ⟨value, (h.inverse token value).mpr (hs value token hm)⟩

theorem knownValue_spec (tables : Tables) (previous : Option CodePoint) (input value : Text)
    (h : knownValue tables pmap.knownValues previous input = some value) :
    value <+: input ∧ ∃ token, pmap.byValue.get? value = some token := by
  unfold knownValue at h
  split_ifs at h
  have hm := (List.mem_insertionSort _).mp (List.mem_of_find?_eq_some h)
  have hprefix := List.find?_some h
  rw [Bool.and_eq_true] at hprefix
  refine ⟨List.isPrefixOf_iff_prefix.mp hprefix.1, Option.isSome_iff_exists.mp ?_⟩
  rw [Dict.isSome_get?, Dict.contains_iff]
  exact ⟨value, hm, beq_self_eq_true value⟩

theorem drop_of_append (c : CodePoint) (rest first after : Text) (hne : first ≠ []) (h : c :: rest = first ++ after) :
    rest.drop (first.length - 1) = after := by
  obtain ⟨d, tail, rfl⟩ := List.exists_cons_of_ne_nil hne
  rw [List.cons_append, List.cons.injEq] at h
  rw [h.2, List.length_cons, Nat.add_sub_cancel, List.drop_left]

theorem maskKnown_source (tables : Tables) (hfilled : pmap.Filled) (skip : ℕ) (previous : Option CodePoint)
    (input : Text) : sourceOf (maskKnown tables pmap skip previous input) = input.drop skip := by
  induction input generalizing skip previous with
  | nil => cases skip with
      | zero => rfl
      | succ skip => rfl
  | cons c rest ih =>
      cases skip with
      | succ skip => exact ih skip (some c)
      | zero =>
          rw [List.drop_zero]
          cases hmatch : matchToken (c :: rest) with
          | some other =>
              obtain ⟨hvalid, htext⟩ := (matchToken_iff _ other.2 other.1).mp hmatch
              have hne : other.1.text ≠ [] := by
                obtain ⟨body, hbody, _, _⟩ := hvalid.not_open
                rw [hbody]
                exact List.cons_ne_nil _ _
              rw [maskKnown, hmatch]
              change sourceOf (other.1.text.map .keep ++ _) = _
              rw [sourceOf_append, sourceOf_keep, ih, drop_of_append c rest _ _ hne htext, htext]
          | none =>
              rw [maskKnown, hmatch]
              cases hknown : knownValue tables pmap.knownValues previous (c :: rest) with
              | some value =>
                  obtain ⟨⟨after, hafter⟩, token, hget⟩ := knownValue_spec tables previous _ value hknown
                  dsimp only
                  rw [sourceOf_cons, ih, drop_of_append c rest value after (hfilled value token hget) hafter.symm]
                  exact hafter
              | none =>
                  dsimp only
                  rw [sourceOf_cons, ih]
                  rfl

theorem maskKnown_swapped (tables : Tables) (skip : ℕ) (previous : Option CodePoint) (input : Text) :
    Swapped (some pmap) (maskKnown tables pmap skip previous input) := by
  induction input generalizing skip previous with
  | nil =>
      intro value token hm
      cases skip with
      | zero => cases hm
      | succ skip => cases hm
  | cons c rest ih =>
      cases skip with
      | succ skip => exact ih skip (some c)
      | zero =>
          intro value token hm
          cases hmatch : matchToken (c :: rest) with
          | some other =>
              rw [maskKnown, hmatch] at hm
              rcases List.mem_append.mp hm with hm | hm
              · obtain ⟨d, _, he⟩ := List.mem_map.mp hm
                cases he
              · exact ih _ _ value token hm
          | none =>
              rw [maskKnown, hmatch] at hm
              cases hknown : knownValue tables pmap.knownValues previous (c :: rest) with
              | some known =>
                  obtain ⟨_, other, hget⟩ := knownValue_spec tables previous _ known hknown
                  simp only [hknown, hget, Option.getD_some] at hm
                  rcases List.mem_cons.mp hm with he | hm
                  · cases he
                    exact hget
                  · exact ih _ _ value token hm
              | none =>
                  simp only [hknown] at hm
                  rcases List.mem_cons.mp hm with he | hm
                  · cases he
                  · exact ih _ _ value token hm

-- A stretch that was put in is one of the tokens of the text that was made.
theorem Swapped.mem_tokenSpans (h : MapInvariant pmap) (segments before after : List (Segment CodePoint))
    (value token : Text) (hs : Swapped (some pmap) segments) (hsplit : segments = before ++ .swap value token :: after) :
    ((targetOf before).length, (targetOf before).length + token.length) ∈
      tokenSpans 0 (pieces 0 (targetOf segments)) := by
  obtain ⟨found, hvalid, rfl, _⟩ := hs.valid h segments value token (by rw [hsplit]; simp)
  have hspan := Pii.mem_tokenSpans 0 (pieces 0 (targetOf before)) (pieces 0 (targetOf after)) found
  rw [pieces_flatMap, Nat.zero_add] at hspan
  rw [hsplit, targetOf_append, targetOf_cons]
  change _ ∈ tokenSpans 0 (pieces 0 (targetOf before ++ (found.text ++ targetOf after)))
  rw [pieces_append_text _ _ found hvalid]
  exact hspan

theorem detect_spec (detector : Detector) (source : Text) (finding : IdentifierMatch source)
    (h : finding ∈ detect detector source) (span : ℕ × ℕ) (hspan : span ∈ tokenSpans 0 (pieces 0 source)) :
    finding.stop ≤ span.1 ∨ span.2 ≤ finding.start := by
  have hm := mem_resolveOverlaps _ finding h
  have hall := List.all_eq_true.mp (List.mem_filter.mp hm).2 span hspan
  rw [Bool.or_eq_true, decide_eq_true_eq, decide_eq_true_eq] at hall
  exact hall

theorem Swapped.avoids (h : MapInvariant pmap) (segments : List (Segment CodePoint)) (hs : Swapped (some pmap) segments)
    (detector : Detector) (finding : IdentifierMatch (targetOf segments))
    (hf : finding ∈ detect detector (targetOf segments)) (known : Option PseudonymMap) :
    Avoids 0 segments (editOf known finding) := by
  intro before value token after hsplit
  have hspan := hs.mem_tokenSpans h segments before after value token hsplit
  have hapart := detect_spec detector _ finding hf _ hspan
  rw [Nat.zero_add]
  exact hapart

-- A text that lacks nothing is masked: parts of it gave way to their tokens, the rest is as it was.
def MaskedBy (pmap : Option PseudonymMap) (input masked : Text) : Prop :=
  ∃ segments, sourceOf segments = input ∧ targetOf segments = masked ∧ Swapped pmap segments

theorem maskedBy_self (pmap : Option PseudonymMap) (input : Text) : MaskedBy pmap input input := by
  refine ⟨input.map .keep, sourceOf_keep input, targetOf_keep input, fun value token hm => ?_⟩
  obtain ⟨c, _, he⟩ := List.mem_map.mp hm
  cases he

theorem maskedBy_masked (tables : Tables) (hfilled : pmap.Filled) (input : Text) :
    MaskedBy (some pmap) input (pmap.masked tables input) := by
  unfold PseudonymMap.masked
  split_ifs
  · exact maskedBy_self _ input
  · exact ⟨_, maskKnown_source tables hfilled 0 none input, rfl, maskKnown_swapped tables 0 none input⟩

theorem valueToken_of_nothing_missing {source : Text} (known : Option PseudonymMap)
    (found : List (IdentifierMatch source)) (hmissing : missingValues known found = [])
    (finding : IdentifierMatch source) (hf : finding ∈ found) :
    valueToken known finding.text = some ((valueToken known finding.text).getD []) := by
  cases htoken : valueToken known finding.text with
  | some token => rfl
  | none =>
      rw [missingValues, List.map_eq_nil_iff, List.filter_eq_nil_iff] at hmissing
      exact absurd (by rw [htoken]; rfl) (hmissing finding hf)

theorem maskedBy_splice (h : MapInvariant pmap) (detector : Detector) (input source : Text)
    (hmasked : MaskedBy (some pmap) input source)
    (hmissing : missingValues (some pmap) (detect detector source) = []) :
    MaskedBy (some pmap) input (splice source 0 ((detect detector source).map (editOf (some pmap)))) := by
  obtain ⟨segments, hsource, rfl, hswapped⟩ := hmasked
  have hne : ∀ value token, .swap value token ∈ segments → token ≠ [] := by
    intro value token hm
    obtain ⟨found, hvalid, rfl, _⟩ := hswapped.valid h segments value token hm
    obtain ⟨body, hbody, _, _⟩ := hvalid.not_open
    rw [hbody]
    exact List.cons_ne_nil _ _
  have hordered := (resolveOverlaps_apart _).ordered (some pmap) (detect detector (targetOf segments)) 0
    fun _ _ => Nat.zero_le _
  obtain ⟨segments', hsource', htarget', hswaps⟩ := splice_segments _ (targetOf segments) 0 segments rfl (Nat.zero_le _)
    hne hordered fun edit he => by
      obtain ⟨finding, hf, rfl⟩ := List.mem_map.mp he
      exact hswapped.avoids h segments detector finding hf _
  refine ⟨segments', hsource'.trans hsource, htarget', fun value token hm => ?_⟩
  rcases hswaps value token hm with hm | ⟨edit, he, htarget, hslice⟩
  · exact hswapped value token hm
  · obtain ⟨finding, hf, rfl⟩ := List.mem_map.mp he
    rw [hslice, htarget]
    exact valueToken_of_nothing_missing (some pmap) _ hmissing finding hf

-- Nothing is found in a text while there is no map.
theorem maskedBy_none (detector : Detector) (input : Text)
    (hmissing : missingValues none (detect detector input) = []) :
    splice input 0 ((detect detector input).map (editOf none)) = input := by
  rw [missingValues, List.map_eq_nil_iff, List.filter_eq_nil_iff] at hmissing
  cases hfound : detect detector input with
  | nil => rfl
  | cons finding rest => exact absurd rfl (hmissing finding (by rw [hfound]; exact List.mem_cons_self))

theorem maskedBy_applyMap (tables : Tables) (known : Option PseudonymMap)
    (h : ∀ pmap ∈ known, MapInvariant pmap ∧ pmap.Filled) (detector : Detector) (input : Text)
    (hmissing : (applyMap tables detector known input).2 = []) :
    MaskedBy known input (applyMap tables detector known input).1 := by
  unfold applyMap at hmissing ⊢
  cases known with
  | none =>
      dsimp only at hmissing ⊢
      split_ifs at hmissing ⊢ with hnone
      · rw [maskedBy_none detector input hnone]
        exact maskedBy_self _ input
      · exact absurd hmissing hnone
  | some pmap =>
      obtain ⟨hmap, hfilled⟩ := h pmap rfl
      dsimp only at hmissing ⊢
      split_ifs at hmissing ⊢ with hnone
      · exact maskedBy_splice hmap detector input _ (maskedBy_masked tables hfilled input) hnone
      · exact absurd hmissing hnone

end Applying

end AgenticOrg.Pii
