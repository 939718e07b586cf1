import AgenticOrg.Pii.Masking.Texts

namespace AgenticOrg.Pii

open JsonText OrderedDict Splices

section Restoring

theorem mem_pieces (x : Text) (found : TokenMatch) (h : .token found ∈ pieces 0 x) :
    found.Valid ∧ found.text <:+: x := by
  induction hlen : x.length using Nat.strong_induction_on generalizing x with
  | _ n ih =>
      cases x with
      | nil => cases h
      | cons c x' =>
          cases hmatch : matchToken (c :: x') with
          | none =>
              rw [pieces, hmatch] at h
              rcases List.mem_cons.mp h with he | h
              · cases he
              · obtain ⟨hvalid, hwithin⟩ := ih x'.length (by rw [← hlen]; simp) x' h rfl
                exact ⟨hvalid, hwithin.trans (List.infix_cons_iff.mpr (.inr (List.infix_refl _)))⟩
          | some other =>
              obtain ⟨hvalid, hx⟩ := (matchToken_iff _ other.2 other.1).mp hmatch
              have hpos : 0 < other.1.text.length := by
                obtain ⟨body, htext, _, _⟩ := hvalid.not_open
                rw [htext]
                simp
              rw [hx, pieces_text _ hvalid] at h
              rw [hx]
              rcases List.mem_cons.mp h with he | h
              · cases he
                exact ⟨hvalid, (List.prefix_append _ _).isInfix⟩
              · obtain ⟨hother, hwithin⟩ := ih other.2.length (by rw [← hlen, hx, List.length_append]; omega) other.2 h rfl
                exact ⟨hother, hwithin.trans (List.suffix_append _ _).isInfix⟩

-- A token of this tag stands somewhere in the text.
def containsTag (tag input : Text) : Bool := input.tails.any fun suffix => (matchToken suffix).any (·.1.tag = tag)

theorem containsTag_of_within (input : Text) (found : TokenMatch) (h : found.Valid) (hwithin : found.text <:+: input) :
    containsTag found.tag input = true := by
  obtain ⟨before, after, rfl⟩ := hwithin
  refine List.any_eq_true.mpr ⟨found.text ++ after, ?_, ?_⟩
  · rw [List.mem_tails, List.append_assoc]
    exact List.suffix_append _ _
  · rw [(matchToken_iff (found.text ++ after) after found).mpr ⟨h, rfl⟩]
    simp

theorem subTokens_append (replace : Text → Text) (x y : Text) (found : TokenMatch) (h : found.Valid) :
    subTokens replace (x ++ (found.text ++ y)) = subTokens replace x ++ (replace found.text ++ subTokens replace y) := by
  rw [subTokens, pieces_append_text x y found h, List.flatMap_append, List.flatMap_cons]
  rfl

theorem subTokens_self (replace : Text → Text) (x : Text)
    (h : ∀ found, .token found ∈ pieces 0 x → replace found.text = found.text) : subTokens replace x = x := by
  conv_rhs => rw [← pieces_flatMap x]
  refine List.flatMap_congr fun piece hp => ?_
  cases piece with
  | char c => rfl
  | token found => exact h found hp

theorem findTokens_append (x y : Text) (found : TokenMatch) (h : found.Valid) :
    findTokens (x ++ (found.text ++ y)) = findTokens x ++ found :: findTokens y := by
  rw [findTokens, pieces_append_text x y found h, List.filterMap_append, List.filterMap_cons]
  rfl

variable {pmap : PseudonymMap}

-- Every token that was put in goes back to what it was put in for; a token that stood in the text stays.
theorem Swapped.subTokens (h : MapInvariant pmap) (segments : List (Segment CodePoint))
    (hs : Swapped (some pmap) segments) (replace : Text → Text)
    (hswap : ∀ value token, .swap value token ∈ segments → replace token = value)
    (hkeep : ∀ found : TokenMatch, found.Valid → found.text <:+: sourceOf segments → replace found.text = found.text) :
    subTokens replace (targetOf segments) = sourceOf segments := by
  induction hlen : segments.length using Nat.strong_induction_on generalizing segments with
  | _ n ih =>
      rcases first_swap segments with hall | ⟨before, value, token, after, rfl, hbefore⟩
      · rw [targetOf_eq_sourceOf segments hall]
        refine subTokens_self replace _ fun found hf => ?_
        obtain ⟨hvalid, hwithin⟩ := mem_pieces _ found hf
        exact hkeep found hvalid hwithin
      · obtain ⟨found, hvalid, rfl, _⟩ := hs.valid h _ value token (by simp)
        have hrest := ih after.length (by rw [← hlen, List.length_append, List.length_cons]; omega) after
          (fun v t hm => hs v t (by simp [hm])) (fun v t hm => hswap v t (by simp [hm]))
          (fun other hvalid hwithin => hkeep other hvalid (hwithin.trans (by
            rw [sourceOf_append, sourceOf_cons, ← List.append_assoc]
            exact (List.suffix_append _ _).isInfix))) rfl
        have hfirst : Pii.subTokens replace (targetOf before) = sourceOf before := by
          rw [targetOf_eq_sourceOf before hbefore]
          refine subTokens_self replace _ fun other hf => ?_
          obtain ⟨hother, hwithin⟩ := mem_pieces _ other hf
          refine hkeep other hother (hwithin.trans ?_)
          rw [sourceOf_append]
          exact (List.prefix_append _ _).isInfix
        rw [targetOf_append, targetOf_cons, sourceOf_append, sourceOf_cons]
        change Pii.subTokens replace (targetOf before ++ (found.text ++ targetOf after)) = _
        rw [subTokens_append replace _ _ found hvalid, hfirst, hrest, hswap value found.text (by simp)]
        rfl

-- The map's tokens in the text that was made are those that were put in.
theorem Swapped.tokensIn (h : MapInvariant pmap) (segments : List (Segment CodePoint))
    (hs : Swapped (some pmap) segments) (htag : containsTag pmap.tag (sourceOf segments) = false) :
    tokensIn pmap (targetOf segments) = swapsOf segments := by
  -- A token that stood in the text has another tag.
  have hforeign : ∀ x, x <:+: sourceOf segments → Pii.tokensIn pmap x = [] := by
    intro x hx
    rw [Pii.tokensIn, List.filter_eq_nil_iff]
    intro token hm hc
    obtain ⟨found, hf, rfl⟩ := List.mem_map.mp hm
    obtain ⟨piece, hp, hpiece⟩ := List.mem_filterMap.mp hf
    cases piece with
    | char c => cases hpiece
    | token other =>
        cases hpiece
        obtain ⟨hvalid, hwithin⟩ := mem_pieces x found hp
        have hsome : (pmap.byToken.get? found.text).isSome = true := by
          rw [Dict.isSome_get?]
          exact hc
        obtain ⟨value, hget⟩ := Option.isSome_iff_exists.mp hsome
        obtain ⟨own, hown, htext, htag'⟩ := h.valid found.text ⟨value, hget⟩
        have hsame : own = found := by
          have hmatch := (matchToken_iff (found.text ++ []) [] own).mpr ⟨hown, by rw [htext]⟩
          rw [(matchToken_iff (found.text ++ []) [] found).mpr ⟨hvalid, rfl⟩] at hmatch
          cases hmatch
          rfl
        rw [← htag', hsame, containsTag_of_within _ found hvalid (hwithin.trans hx)] at htag
        cases htag
  clear htag
  induction hlen : segments.length using Nat.strong_induction_on generalizing segments with
  | _ n ih =>
      rcases first_swap segments with hall | ⟨before, value, token, after, rfl, hbefore⟩
      · have hnone : swapsOf segments = [] := by
          rw [swapsOf, List.map_eq_nil_iff, List.filter_eq_nil_iff]
          exact fun segment hm => by rw [hall segment hm]; exact Bool.false_ne_true
        rw [targetOf_eq_sourceOf segments hall, hforeign _ (List.infix_refl _), hnone]
      · obtain ⟨found, hvalid, rfl, _⟩ := hs.valid h _ value token (by simp)
        have hrest := ih after.length (by rw [← hlen, List.length_append, List.length_cons]; omega) after
          (fun v t hm => hs v t (by simp [hm]))
          (fun x hx => hforeign x (hx.trans (by
            rw [sourceOf_append, sourceOf_cons, ← List.append_assoc]
            exact (List.suffix_append _ _).isInfix))) rfl
        have hfirst : Pii.tokensIn pmap (targetOf before) = [] := by
          rw [targetOf_eq_sourceOf before hbefore]
          refine hforeign _ ?_
          rw [sourceOf_append]
          exact (List.prefix_append _ _).isInfix
        have hnone : swapsOf before = [] := by
          rw [swapsOf, List.map_eq_nil_iff, List.filter_eq_nil_iff]
          exact fun segment hm => by rw [hbefore segment hm]; exact Bool.false_ne_true
        have hswaps : swapsOf (before ++ .swap value found.text :: after) = swapsOf before ++ found.text :: swapsOf after := by
          rw [swapsOf, List.filter_append, List.map_append]
          rfl
        have hcontains : pmap.byToken.contains found.text = true := by
          rw [← Dict.isSome_get?, (h.inverse _ _).mpr (hs value found.text (by simp))]
          rfl
        rw [targetOf_append, targetOf_cons, hswaps, hnone, ← hrest]
        change Pii.tokensIn pmap (targetOf before ++ (found.text ++ targetOf after)) = _
        rw [Pii.tokensIn, findTokens_append _ _ found hvalid, List.map_append, List.filter_append, List.map_cons,
          List.filter_cons_of_pos hcontains]
        change Pii.tokensIn pmap (targetOf before) ++ _ = _
        rw [hfirst]
        rfl

end Restoring

section Structured

variable (tables : Tables)

theorem worth_ne_nil (value : Text) (h : worthAPseudonym tables value = true) : value ≠ [] := by
  rintro rfl
  exact absurd h (by simp [worthAPseudonym, Tables.strip])

mutual

theorem walk_filled (entity : Option Text) (json : Json) (addition : Text × Text)
    (h : addition ∈ walk tables entity json) : addition.1 ≠ [] := by
  cases json with
  | null => exact absurd h (by simp [walk])
  | bool value => exact absurd h (by simp [walk])
  | int value => exact absurd h (by simp [walk])
  | float value => exact absurd h (by simp [walk])
  | str value =>
      cases entity with
      | none => exact absurd h (by simp [walk])
      | some entity =>
          rw [walk] at h
          split_ifs at h with hworth
          · rw [List.mem_singleton.mp h]
            exact worth_ne_nil tables value hworth
          · cases h
  | arr items =>
      rw [walk] at h
      exact walkItems_filled entity items addition h
  | obj entries =>
      rw [walk] at h
      exact walkEntries_filled entity entries addition h

theorem walkItems_filled (entity : Option Text) (items : List Json) (addition : Text × Text)
    (h : addition ∈ walkItems tables entity items) : addition.1 ≠ [] := by
  cases items with
  | nil => exact absurd h (by simp [walkItems])
  | cons item rest =>
      rw [walkItems] at h
      rcases List.mem_append.mp h with h | h
      · exact walk_filled entity item addition h
      · exact walkItems_filled entity rest addition h

theorem walkEntries_filled (entity : Option Text) (entries : List (Text × Json)) (addition : Text × Text)
    (h : addition ∈ walkEntries tables entity entries) : addition.1 ≠ [] := by
  cases entries with
  | nil => exact absurd h (by simp [walkEntries])
  | cons entry rest =>
      rw [walkEntries] at h
      rcases List.mem_append.mp h with h | h
      · exact walk_filled _ entry.2 addition h
      · exact walkEntries_filled entity rest addition h

end

theorem pendingValues_filled (known : Option PseudonymMap) (texts : List Text) (structured : List Json)
    (addition : Text × Text) (h : addition ∈ pendingValues tables known texts structured) : addition.1 ≠ [] := by
  rcases List.mem_append.mp (List.mem_filter.mp h).1 with h | h
  · obtain ⟨value, _, h⟩ := List.mem_flatMap.mp h
    exact walk_filled tables none value addition h
  · obtain ⟨input, _, h⟩ := List.mem_flatMap.mp h
    cases hdocument : jsonDocument tables input with
    | none =>
        rw [hdocument] at h
        cases h
    | some value =>
        rw [hdocument] at h
        exact walk_filled tables none value addition h

theorem missingValues_filled {source : Text} (known : Option PseudonymMap) (found : List (IdentifierMatch source))
    (addition : Text × Text) (h : addition ∈ missingValues known found) : addition.1 ≠ [] := by
  obtain ⟨finding, _, rfl⟩ := List.mem_map.mp h
  have hstart := finding.nonempty
  have hstop := finding.inside
  intro hnil
  have hlen := congrArg List.length hnil
  simp only [IdentifierMatch.text, List.length_take, List.length_drop, List.length_nil] at hlen
  omega

theorem applyMap_filled (detector : Detector) (known : Option PseudonymMap) (input : Text) (addition : Text × Text)
    (h : addition ∈ (applyMap tables detector known input).2) : addition.1 ≠ [] := by
  unfold applyMap at h
  dsimp only at h
  split_ifs at h
  · cases h
  · exact missingValues_filled known _ addition h

end Structured

end AgenticOrg.Pii
