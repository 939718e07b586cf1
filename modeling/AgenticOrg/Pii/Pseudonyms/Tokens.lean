import Mathlib.Data.List.TakeWhile
import AgenticOrg.Pii.Pseudonyms

namespace AgenticOrg.Pii

open JsonText

section Numbers

theorem decimalValue_ascii (digit : ℕ) (h : digit < 10) :
    decimalValue (Fin.ofNat _ (48 + digit)) = some digit := by
  have hall : ∀ digit < 10, decimalValue (Fin.ofNat _ (48 + digit)) = some digit := by decide
  exact hall digit h

theorem isDecimal_of_isDigit (c : CodePoint) (h : isDigit c = true) : isDecimal c = true := by
  rw [isDigit, Bool.and_eq_true, decide_eq_true_eq, decide_eq_true_eq] at h
  have hc : c = Fin.ofNat _ (48 + (c.val - 48)) := by
    apply Fin.ext
    have hlt := c.isLt
    simp only [Fin.ofNat, Nat.mod_eq_of_lt (show 48 + (c.val - 48) < 0x110000 by omega)]
    omega
  rw [hc, isDecimal, decimalValue_ascii _ (by omega)]
  rfl

theorem intOf_append (digits : Text) (c : CodePoint) :
    intOf (digits ++ [c]) = 10 * intOf digits + (decimalValue c).getD 0 := by
  rw [intOf, List.foldl_append]
  rfl

theorem decimal_of_pos (n : ℕ) (hn : n ≠ 0) :
    decimal n = (Nat.digits 10 n).reverse.map fun digit => Fin.ofNat _ (48 + digit) := if_neg hn

theorem intOf_decimal (n : ℕ) (hn : n ≠ 0) : intOf (decimal n) = n := by
  have hlt : ∀ digit ∈ Nat.digits 10 n, digit < 10 := fun digit hd => Nat.digits_lt_base (by decide) hd
  rw [decimal_of_pos n hn]
  conv_rhs => rw [← Nat.ofDigits_digits 10 n]
  generalize Nat.digits 10 n = digits at hlt
  induction digits with
  | nil => rfl
  | cons digit rest ih =>
      have hdigit := decimalValue_ascii digit (hlt digit List.mem_cons_self)
      have hrest := ih fun other ho => hlt other (List.mem_cons_of_mem _ ho)
      rw [List.reverse_cons, List.map_append, List.map_singleton, intOf_append, hrest, hdigit, Nat.ofDigits_cons]
      simp
      omega

theorem isDigit_decimal (n : ℕ) (c : CodePoint) (hc : c ∈ decimal n) : isDigit c = true := by
  have hall : ∀ digit < 10, isDigit (Fin.ofNat _ (48 + digit)) = true := by decide
  unfold decimal at hc
  split_ifs at hc
  · rw [List.mem_singleton.mp hc]
    decide
  · obtain ⟨digit, hd, rfl⟩ := List.mem_map.mp hc
    exact hall digit (Nat.digits_lt_base (by decide) (List.mem_reverse.mp hd))

-- A number is written without leading zeros.
theorem decimal_head (n : ℕ) (hn : n ≠ 0) :
    ∃ first rest, decimal n = first :: rest ∧ isDigit first = true ∧ first ≠ code '0' := by
  have hne : Nat.digits 10 n ≠ [] := Nat.digits_ne_nil_iff_ne_zero.mpr hn
  have hlast := Nat.getLast_digit_ne_zero 10 hn
  have hlt : (Nat.digits 10 n).getLast hne < 10 := Nat.digits_lt_base (by decide) (List.getLast_mem hne)
  have hsplit := List.dropLast_concat_getLast hne
  generalize (Nat.digits 10 n).getLast hne = last at hlast hlt hsplit
  have hall : ∀ digit < 10, digit ≠ 0 →
      isDigit (Fin.ofNat _ (48 + digit)) = true ∧ Fin.ofNat 0x110000 (48 + digit) ≠ code '0' := by decide
  refine ⟨Fin.ofNat _ (48 + last), ((Nat.digits 10 n).dropLast.reverse.map fun digit => Fin.ofNat _ (48 + digit)), ?_,
    hall last hlt hlast⟩
  rw [decimal_of_pos n hn]
  conv_lhs => rw [← hsplit]
  rw [List.reverse_append]
  rfl

end Numbers

section Matching

theorem isTag_iff (tag : Text) : isTag tag = true ↔ tag.length = 6 ∧ tag.all isHexChar = true := by
  rw [isTag, Bool.and_eq_true, decide_eq_true_eq]

structure TokenMatch.Valid (found : TokenMatch) : Prop where
  entity : isEntity found.entity = true
  digits : ∃ first rest, found.digits = first :: rest ∧ isDigit first = true ∧ first ≠ code '0' ∧
    ∀ c ∈ rest, isDecimal c = true
  tag : isTag found.tag = true

theorem matchNumber_digits (entity more tag rest : Text) (first : CodePoint) (hfirst : isDigit first = true)
    (hzero : first ≠ code '0') (hmore : ∀ c ∈ more, isDecimal c = true) (htag : isTag tag = true) :
    matchNumber entity (first :: more ++ code ':' :: (tag ++ text "]]" ++ rest)) =
      some (⟨entity, first :: more, tag⟩, rest) := by
  have hlen := ((isTag_iff tag).mp htag).1
  have hcolon : isDecimal (code ':') = false := by decide
  have hdrop : (more ++ code ':' :: (tag ++ text "]]" ++ rest)).dropWhile isDecimal =
      code ':' :: (tag ++ text "]]" ++ rest) := by
    rw [List.dropWhile_append_of_pos hmore, List.dropWhile_cons_of_neg (by rw [hcolon]; exact Bool.false_ne_true)]
  have htake : (more ++ code ':' :: (tag ++ text "]]" ++ rest)).takeWhile isDecimal = more := by
    rw [List.takeWhile_append_of_pos hmore, List.takeWhile_cons_of_neg (by rw [hcolon]; exact Bool.false_ne_true),
      List.append_nil]
  have htake6 : (tag ++ text "]]" ++ rest).take 6 = tag := by
    rw [List.append_assoc, ← hlen, List.take_left]
  have hdrop6 : (tag ++ text "]]" ++ rest).drop 6 = text "]]" ++ rest := by
    rw [List.append_assoc, ← hlen, List.drop_left]
  have hdrop8 : (tag ++ text "]]" ++ rest).drop 8 = rest := by
    have hadd : (tag ++ text "]]" ++ rest).drop 8 = ((tag ++ text "]]" ++ rest).drop 6).drop 2 := by
      rw [List.drop_drop]
    rw [hadd, hdrop6]
    rfl
  rw [List.cons_append, matchNumber, if_pos ⟨hfirst, hzero⟩, hdrop]
  change (if _ then _ else _) = _
  rw [htake6, hdrop6, if_pos ⟨rfl, htag, rfl⟩, htake, hdrop8]

theorem matchNumber_sound (entity input rest : Text) (found : TokenMatch)
    (h : matchNumber entity input = some (found, rest)) :
    ∃ first more, found.entity = entity ∧ found.digits = first :: more ∧ isDigit first = true ∧ first ≠ code '0' ∧
      (∀ c ∈ more, isDecimal c = true) ∧ isTag found.tag = true ∧
      input = found.digits ++ code ':' :: (found.tag ++ text "]]" ++ rest) := by
  unfold matchNumber at h
  split at h
  · cases h
  · rename_i first more
    split_ifs at h with hfirst
    split at h
    · cases h
    · rename_i colon after hdrop
      split_ifs at h with hafter
      obtain ⟨rfl, htag, hclose⟩ := hafter
      cases h
      refine ⟨first, _, rfl, rfl, hfirst.1, hfirst.2, fun c hc => List.mem_takeWhile_imp hc, htag, ?_⟩
      have hmore := List.takeWhile_append_dropWhile (p := isDecimal) (l := more)
      have hafter : after = after.take 6 ++ text "]]" ++ after.drop 8 := by
        have h2 := List.take_append_drop 2 (after.drop 6)
        rw [hclose, List.drop_drop] at h2
        rw [List.append_assoc, h2, List.take_append_drop]
      rw [hdrop] at hmore
      rw [List.cons_append, ← hafter, hmore]

-- A number that ends in an underscore is no number of a token.
theorem matchNumber_underscore (entity before rest : Text) (h : code ':' ∉ before) :
    matchNumber entity (before ++ code '_' :: rest) = none := by
  have hunderscore : isDecimal (code '_') = false := by decide
  cases before with
  | nil =>
      rw [List.nil_append, matchNumber, if_neg]
      rintro ⟨hdigit, _⟩
      exact absurd hdigit (by decide)
  | cons first more =>
      rw [List.cons_append, matchNumber]
      split_ifs with hfirst
      · have hdrop : ∃ c tail, (more ++ code '_' :: rest).dropWhile isDecimal = c :: tail ∧ c ≠ code ':' := by
          clear hfirst
          induction more with
          | nil =>
              refine ⟨code '_', rest, ?_, by decide⟩
              exact List.dropWhile_cons_of_neg (by rw [hunderscore]; exact Bool.false_ne_true)
          | cons d tail ih =>
              by_cases hd : isDecimal d = true
              · rw [List.cons_append, List.dropWhile_cons_of_pos hd]
                refine ih fun hm => h ?_
                rcases List.mem_cons.mp hm with he | hm
                · exact he ▸ List.mem_cons_self
                · exact List.mem_cons_of_mem _ (List.mem_cons_of_mem _ hm)
              · refine ⟨d, tail ++ code '_' :: rest, List.dropWhile_cons_of_neg hd, ?_⟩
                rintro rfl
                exact h (List.mem_cons_of_mem _ List.mem_cons_self)
        obtain ⟨c, tail, hdrop, hc⟩ := hdrop
        rw [hdrop]
        exact if_neg fun hboth => hc hboth.1
      · rfl

theorem isEntityChar_ne_colon (c : CodePoint) (h : isEntityChar c = true) : c ≠ code ':' := by
  rintro rfl
  exact absurd h (by decide)

theorem isEntityChar_of_isUpper (c : CodePoint) (h : isUpper c = true) : isEntityChar c = true := by
  rw [isEntityChar, h]
  rfl

-- The entity is all that comes before the last underscore.
theorem matchEntity_digits (seen entity more tag rest : Text) (first : CodePoint) (hfirst : isDigit first = true)
    (hzero : first ≠ code '0') (hmore : ∀ c ∈ more, isDecimal c = true) (htag : isTag tag = true)
    (hseen : seen ≠ []) (hentity : entity.all isEntityChar = true) :
    matchEntity seen (entity ++ code '_' :: (first :: more ++ code ':' :: (tag ++ text "]]" ++ rest))) =
      some (⟨seen ++ entity, first :: more, tag⟩, rest) := by
  induction entity generalizing seen with
  | nil =>
      rw [List.nil_append, matchEntity, if_pos ⟨rfl, hseen⟩,
        matchNumber_digits seen more tag rest first hfirst hzero hmore htag, List.append_nil]
      rfl
  | cons c tail ih =>
      rw [List.all_cons, Bool.and_eq_true] at hentity
      have hcolon : code ':' ∉ tail := fun hm =>
        isEntityChar_ne_colon _ (List.all_eq_true.mp hentity.2 _ hm) rfl
      have hnumber : (if c = code '_' ∧ seen ≠ [] then
          matchNumber seen (tail ++ code '_' :: (first :: more ++ code ':' :: (tag ++ text "]]" ++ rest))) else none) =
          none := by
        split_ifs
        · exact matchNumber_underscore seen tail _ hcolon
        · rfl
      rw [List.cons_append, matchEntity, hnumber, Option.none_or, if_neg hseen, if_pos hentity.1,
        ih (seen ++ [c]) (by simp) hentity.2]
      simp

theorem isEntity_iff (entity : Text) : isEntity entity = true ↔
    ∃ c tail, entity = c :: tail ∧ isUpper c = true ∧ tail.all isEntityChar = true := by
  cases entity with
  | nil => simp [isEntity]
  | cons c tail => simp [isEntity]

theorem isEntity_append (seen : Text) (c : CodePoint) (h : isEntity seen = true) (hc : isEntityChar c = true) :
    isEntity (seen ++ [c]) = true := by
  obtain ⟨first, tail, rfl, hupper, htail⟩ := (isEntity_iff seen).mp h
  refine (isEntity_iff _).mpr ⟨first, tail ++ [c], rfl, hupper, ?_⟩
  rw [List.all_append, htail]
  simpa using hc

theorem matchEntity_sound (seen input rest : Text) (found : TokenMatch) (hseen : seen = [] ∨ isEntity seen = true)
    (h : matchEntity seen input = some (found, rest)) :
    found.Valid ∧ seen ++ input = found.entity ++ code '_' :: (found.digits ++ code ':' ::
      (found.tag ++ text "]]" ++ rest)) := by
  induction input generalizing seen with
  | nil => cases h
  | cons c tail ih =>
      rw [matchEntity, Option.or_eq_some_iff] at h
      rcases h with h | ⟨_, h⟩
      · split_ifs at h with hc
        obtain ⟨first, more, hentity, hdigits, hfirst, hzero, hmore, htag, htext⟩ := matchNumber_sound seen tail rest found h
        refine ⟨⟨?_, ⟨first, more, hdigits, hfirst, hzero, hmore⟩, htag⟩, ?_⟩
        · rw [hentity]
          exact hseen.resolve_left hc.2
        · rw [hentity, hc.1, ← htext]
      · split_ifs at h with hnil hupper hchar
        · obtain ⟨hvalid, htext⟩ := ih (seen ++ [c]) (.inr (by rw [hnil]; simpa [isEntity] using hupper)) h
          refine ⟨hvalid, ?_⟩
          rw [← htext]
          simp
        · have hentity := isEntity_append seen c (hseen.resolve_left hnil) hchar
          obtain ⟨hvalid, htext⟩ := ih (seen ++ [c]) (.inr hentity) h
          refine ⟨hvalid, ?_⟩
          rw [← htext]
          simp

theorem TokenMatch.text_append (found : TokenMatch) (rest : Text) :
    found.text ++ rest = code '[' :: code '[' :: (found.entity ++ code '_' ::
      (found.digits ++ code ':' :: (found.tag ++ JsonText.text "]]" ++ rest))) := by
  have hopen : JsonText.text "[[" = [code '[', code '['] := rfl
  rw [TokenMatch.text, hopen]
  simp

-- A token matches where one is written, and nowhere else.
theorem matchToken_iff (input rest : Text) (found : TokenMatch) :
    matchToken input = some (found, rest) ↔ found.Valid ∧ input = found.text ++ rest := by
  constructor
  · intro h
    unfold matchToken at h
    split at h
    · rename_i a b tail
      split_ifs at h with hopen
      obtain ⟨hvalid, htext⟩ := matchEntity_sound [] tail rest found (.inl rfl) h
      refine ⟨hvalid, ?_⟩
      rw [TokenMatch.text_append, ← htext, hopen.1, hopen.2]
      rfl
    · cases h
  · rintro ⟨hvalid, rfl⟩
    obtain ⟨c, tail, hentity, hupper, htail⟩ := (isEntity_iff _).mp hvalid.entity
    obtain ⟨first, more, hdigits, hfirst, hzero, hmore⟩ := hvalid.digits
    have hunderscore : c ≠ code '_' := by
      rintro rfl
      exact absurd hupper (by decide)
    have hfound : found = ⟨[c] ++ tail, first :: more, found.tag⟩ := by
      rw [List.singleton_append, ← hentity, ← hdigits]
    rw [TokenMatch.text_append, matchToken, if_pos ⟨rfl, rfl⟩, hentity, List.cons_append, matchEntity,
      if_neg fun h => h.2 rfl, Option.none_or, if_pos rfl, if_pos hupper, List.nil_append, hdigits,
      matchEntity_digits [c] tail more found.tag rest first hfirst hzero hmore hvalid.tag (by simp) htail, ← hfound]

theorem valid_decimal (entity tag : Text) (n : ℕ) (hn : n ≠ 0) (htag : isTag tag = true)
    (hentity : isEntity entity = true) : (TokenMatch.mk entity (decimal n) tag).Valid := by
  obtain ⟨first, more, hdigits, hfirst, hzero⟩ := decimal_head n hn
  refine ⟨hentity, ⟨first, more, hdigits, hfirst, hzero, fun c hc => ?_⟩, htag⟩
  refine isDecimal_of_isDigit c (isDigit_decimal n c ?_)
  rw [hdigits]
  exact List.mem_cons_of_mem _ hc

theorem fullmatchToken_tokenText (entity tag : Text) (n : ℕ) (hn : n ≠ 0) (htag : isTag tag = true)
    (hentity : isEntity entity = true) :
    fullmatchToken (tokenText entity n tag) = some ⟨entity, decimal n, tag⟩ := by
  have hmatch : matchToken (tokenText entity n tag) = some (⟨entity, decimal n, tag⟩, []) :=
    (matchToken_iff _ _ _).mpr ⟨valid_decimal entity tag n hn htag hentity, (List.append_nil _).symm⟩
  rw [fullmatchToken, hmatch]

end Matching

end AgenticOrg.Pii
