import AgenticOrg.Workflows.Trigger.Texts

namespace AgenticOrg.Workflows

open Directive

namespace Trigger

section Words

theorem words_append_cons (text rest : List Char) (c : Char) (hc : isSpace c = true) :
    words (text ++ c :: rest) = words text ++ words rest := by
  rw [words, List.splitOnP_append_cons _ _ hc, List.filter_append]
  rfl

theorem words_blank_append (blank text : List Char) (hb : IsBlank blank) : words (blank ++ text) = words text := by
  induction blank with
  | nil => rfl
  | cons c rest ih =>
      obtain ⟨hc, hrest⟩ := List.forall_mem_cons.mp hb
      have h := words_append_cons [] (rest ++ text) c hc
      rw [List.cons_append, ← List.nil_append (c :: (rest ++ text)), h, ih hrest]
      rfl

theorem words_append_blank (text blank : List Char) (hb : IsBlank blank) : words (text ++ blank) = words text := by
  cases blank with
  | nil => rw [List.append_nil]
  | cons c rest =>
      obtain ⟨hc, hrest⟩ := List.forall_mem_cons.mp hb
      have hnil := words_blank_append rest [] hrest
      rw [List.append_nil] at hnil
      rw [words_append_cons text rest c hc, hnil]
      exact List.append_nil _

theorem words_strip (text : List Char) : words (strip text) = words text := by
  have hblank (chars : List Char) : IsBlank (chars.takeWhile isSpace) := fun c hc =>
    List.all_eq_true.mp List.all_takeWhile c hc
  have hfront := words_blank_append (text.takeWhile isSpace) (text.dropWhile isSpace) (hblank text)
  rw [List.takeWhile_append_dropWhile] at hfront
  rw [hfront, strip]
  generalize text.dropWhile isSpace = rest
  have hback := words_append_blank (rest.reverse.dropWhile isSpace).reverse
    (rest.reverse.takeWhile isSpace).reverse fun c hc => hblank rest.reverse c (List.mem_reverse.mp hc)
  rw [← List.reverse_append, List.takeWhile_append_dropWhile, List.reverse_reverse] at hback
  exact hback.symm

theorem words_token (text : List Char) (hne : text ≠ []) (h : ∀ c ∈ text, isSpace c = false) :
    words text = [text] := by
  rw [words, List.splitOnP_eq_singleton h]
  simp [hne]

theorem words_gap (text rest : List Char) (gap : Gap) (hne : text ≠ []) (h : ∀ c ∈ text, isSpace c = false) :
    words (text ++ (gap.text ++ rest)) = text :: words rest := by
  obtain ⟨blank, hb, hall⟩ := gap
  cases blank with
  | nil => exact absurd rfl hb
  | cons c more =>
      obtain ⟨hc, hmore⟩ := List.forall_mem_cons.mp hall
      show words (text ++ c :: (more ++ rest)) = _
      rw [words_append_cons text _ c hc, words_token text hne h, words_blank_append more rest hmore]
      rfl

end Words

section Characters

variable {names : List (String × ℕ)} (show_ : Number names → List Char) (P : Char → Prop)

-- What holds of digits, of the characters of the grammar and of the numbers holds of
-- every character of a part.
theorem print_forall (hd : ∀ c : Char, c.isDigit = true → P c) (hs : P '*' ∧ P '-' ∧ P '/')
    (hshow : ∀ number, ∀ c ∈ show_ number, P c) (part : Part names) : ∀ c ∈ part.print show_, P c := by
  have hstep (step : Step) : ∀ c ∈ step.text, P c := fun c hc => hd c (step.digits c hc)
  obtain ⟨hstar, hdash, hslash⟩ := hs
  cases part with
  | every => simpa [Part.print] using hstar
  | one number => exact hshow number
  | range first last =>
      simp only [Part.print, List.forall_mem_append, List.forall_mem_cons]
      exact ⟨hshow first, hdash, hshow last⟩
  | everyStep step =>
      simp only [Part.print, List.forall_mem_cons]
      exact ⟨hstar, hslash, hstep step⟩
  | fromStep first step =>
      simp only [Part.print, List.forall_mem_append, List.forall_mem_cons]
      exact ⟨hshow first, hslash, hstep step⟩
  | rangeStep first last step =>
      simp only [Part.print, List.forall_mem_append, List.forall_mem_cons]
      exact ⟨⟨hshow first, hdash, hshow last⟩, hslash, hstep step⟩

theorem print_ne_nil (part : Part names) (hshow : ∀ number, show_ number ≠ []) : part.print show_ ≠ [] := by
  cases part <;> simp [Part.print, hshow]

theorem digits_of_number (hm : IsMapping names) (number : Number names) :
    number.digits ≠ [] ∧ ∀ c ∈ number.digits, c.isDigit = true := by
  cases number with
  | plain text ne digits => exact ⟨ne, digits⟩
  | name entry text mem same => exact (hm.2 entry mem).2

end Characters

section Numbers

variable {names : List (String × ℕ)} (digits : Digits)

def HasValues (mapping : List (String × ℕ)) : Prop :=
  ∀ entry ∈ mapping, Digits.natOf (toString entry.2).toList = entry.2

theorem hasValues_sound (mapping : List (String × ℕ))
    (h : (mapping.all fun entry => Digits.natOf (toString entry.2).toList == entry.2) = true) : HasValues mapping :=
  fun entry he => eq_of_beq (List.all_eq_true.mp h entry he)

theorem hasValues_month : HasValues MONTH_NAMES := hasValues_sound MONTH_NAMES (by decide)

theorem hasValues_dow : HasValues DOW_NAMES := hasValues_sound DOW_NAMES (by decide)

theorem hasValues_nil : HasValues [] := hasValues_sound [] (by decide)

theorem int_number (hm : IsMapping names) (hv : HasValues names) (number : Number names) :
    digits.int number.digits =
      if number.digits.length ≤ Digits.MAX_STR_DIGITS then some (number.value : ℤ) else none := by
  obtain ⟨hne, hall⟩ := digits_of_number hm number
  have hvalue : Digits.natOf number.digits = number.value := by
    cases number with
    | plain text ne digits => rfl
    | name entry text mem same => exact hv entry mem
  rw [Digits.int_digits digits number.digits hne hall, hvalue]
  by_cases h : number.digits.length ≤ Digits.MAX_STR_DIGITS
  · rw [if_pos h, if_neg (by omega)]
  · rw [if_neg h, if_pos (by omega)]

theorem int_step (step : Step) :
    digits.int step.text = if step.text.length ≤ Digits.MAX_STR_DIGITS then some (step.value : ℤ) else none := by
  rw [Digits.int_digits digits step.text step.ne step.digits]
  by_cases h : step.text.length ≤ Digits.MAX_STR_DIGITS
  · rw [if_pos h, if_neg (by omega)]
    rfl
  · rw [if_neg h, if_pos (by omega)]

theorem splitOnce_append (c : Char) (text rest : List Char) (h : ∀ d ∈ text, d ≠ c) :
    splitOnce c (text ++ c :: rest) = (text, rest) := by
  have htake : (text ++ c :: rest).takeWhile (· != c) = text := by
    rw [List.takeWhile_append_of_pos fun d hd => bne_iff_ne.mpr (h d hd)]
    simp
  have hdrop : (text ++ c :: rest).dropWhile (· != c) = c :: rest := by
    rw [List.dropWhile_append_of_pos fun d hd => bne_iff_ne.mpr (h d hd)]
    simp
  rw [splitOnce, htake, hdrop]
  rfl

theorem inRange_nat (value start stop step : ℕ) (hs : 1 ≤ step) :
    inRange value start (stop + 1) step = some (decide (start ≤ value ∧ value ≤ stop ∧ step ∣ value - start)) := by
  have hpos : (0 : ℤ) < step := by exact_mod_cast hs
  rw [inRange, if_neg (by omega), if_pos hpos]
  congr 1
  rw [decide_eq_decide]
  constructor
  · rintro ⟨hle, hlt, hdvd⟩
    have hle' : start ≤ value := by exact_mod_cast hle
    rw [← Nat.cast_sub hle', Int.natCast_dvd_natCast] at hdvd
    exact ⟨hle', by omega, hdvd⟩
  · rintro ⟨hle, hlt, hdvd⟩
    rw [← Int.natCast_dvd_natCast, Nat.cast_sub hle] at hdvd
    exact ⟨by omega, by omega, hdvd⟩

end Numbers

section Answers

-- An answer is given when the text can be read, and then it is the right one.
def Tells (result : Option Bool) (reads fits : Prop) : Prop :=
  (reads → ∃ found, result = some found ∧ (found = true ↔ fits)) ∧ (¬reads → result = none)

theorem tells_some (found : Bool) (reads fits : Prop) (hr : reads) (h : found = true ↔ fits) :
    Tells (some found) reads fits :=
  ⟨fun _ => ⟨found, rfl, h⟩, fun hn => absurd hr hn⟩

theorem tells_none (reads fits : Prop) (hr : ¬reads) : Tells none reads fits :=
  ⟨fun h => absurd h hr, fun _ => rfl⟩

theorem tells_congr (result : Option Bool) (reads reads' fits fits' : Prop) (hr : reads ↔ reads')
    (hf : fits ↔ fits') (h : Tells result reads fits) : Tells result reads' fits' := by
  rw [Tells, ← hr, ← hf]
  exact h

theorem tells_andThen (first : Option Bool) (second : Unit → Option Bool) (reads reads' fits fits' : Prop)
    (h : Tells first reads fits) (h' : Tells (second ()) reads' fits') :
    Tells (andThen first second) (reads ∧ (fits → reads')) (fits ∧ fits') := by
  by_cases hr : reads
  · obtain ⟨found, he, hf⟩ := h.1 hr
    rw [he]
    cases found with
    | true =>
        have hfits := hf.mp rfl
        refine tells_congr (second ()) reads' _ fits' _ ?_ ?_ h'
        · exact ⟨fun hr' => ⟨hr, fun _ => hr'⟩, fun hb => hb.2 hfits⟩
        · exact ⟨fun hf' => ⟨hfits, hf'⟩, And.right⟩
    | false =>
        have hnot : ¬fits := fun hfits => Bool.noConfusion (hf.mpr hfits)
        exact tells_some false _ _ ⟨hr, fun hfits => absurd hfits hnot⟩
          ⟨fun hc => Bool.noConfusion hc, fun hb => absurd hb.1 hnot⟩
  · rw [h.2 hr]
    exact tells_none _ _ fun hb => hr hb.1

end Answers

section Matching

variable {names : List (String × ℕ)} (digits : Digits) (hm : IsMapping names) (hv : HasValues names)
  (value lo hi : ℕ)

theorem ne_of_digits (text : List Char) (c : Char) (h : ∀ d ∈ text, d.isDigit = true) (hc : c.isDigit = false) :
    ∀ d ∈ text, d ≠ c :=
  fun d hd => Digits.ne_of_isDigit d c (h d hd) hc

theorem not_mem_digits (text : List Char) (c : Char) (h : ∀ d ∈ text, d.isDigit = true) (hc : c.isDigit = false) :
    c ∉ text :=
  fun hmem => ne_of_digits text c h hc c hmem rfl

theorem ne_star (text : List Char) (c : Char) (hc : c ∈ text) (hne : c ≠ '*') : text ≠ ['*'] := by
  rintro rfl
  exact hne (List.mem_singleton.mp hc)

-- What comes before the step, and the step itself.
theorem stepMatches_append (text : List Char) (step : Step) (hslash : ∀ c ∈ text, c ≠ '/') :
    stepMatches digits (text ++ '/' :: step.text) value lo hi =
      if step.text.length ≤ Digits.MAX_STR_DIGITS then
        (stepBounds digits text lo hi).bind fun range => inRange value range.1 (range.2 + 1) step.value
      else none := by
  rw [stepMatches, splitOnce_append '/' text step.text hslash, int_step]
  by_cases h : step.text.length ≤ Digits.MAX_STR_DIGITS
  · rw [if_pos h, if_pos h]
    rfl
  · rw [if_neg h, if_neg h]
    rfl

include hm hv

theorem bounds_numbers (first last : Number names) :
    bounds digits (first.digits ++ '-' :: last.digits) =
      if first.digits.length ≤ Digits.MAX_STR_DIGITS ∧ last.digits.length ≤ Digits.MAX_STR_DIGITS then
        some ((first.value : ℤ), (last.value : ℤ))
      else none := by
  have hdash := ne_of_digits first.digits '-' (digits_of_number hm first).2 (by decide)
  rw [bounds, splitOnce_append '-' first.digits last.digits hdash, int_number digits hm hv first,
    int_number digits hm hv last]
  by_cases hf : first.digits.length ≤ Digits.MAX_STR_DIGITS
  · by_cases hl : last.digits.length ≤ Digits.MAX_STR_DIGITS <;> simp [hf, hl]
  · simp [hf]

theorem partMatches_print (hvalue : lo ≤ value ∧ value ≤ hi) (part : Part names) :
    Tells (partMatches digits (part.print Number.digits) value lo hi) part.Fits (value ∈ part.denotes lo hi) := by
  have hdigits (number : Number names) := (digits_of_number hm number).2
  have hslash (number : Number names) := not_mem_digits number.digits '/' (hdigits number) (by decide)
  have hdash (number : Number names) := not_mem_digits number.digits '-' (hdigits number) (by decide)
  have hstep (text : List Char) (step : Step) : '/' ∈ text ++ '/' :: step.text :=
    List.mem_append_right _ List.mem_cons_self
  cases part with
  | every => exact tells_some true _ _ (by simp [Part.Fits, Part.numbers, Part.steps]) (by simp [Part.denotes, hvalue])
  | one number =>
      have hstar : number.digits ≠ ['*'] := by
        intro h
        exact absurd (h ▸ List.mem_singleton_self '*') (not_mem_digits number.digits '*' (hdigits number) (by decide))
      have hrun : partMatches digits number.digits value lo hi =
          (digits.int number.digits).map fun literal => decide (literal = (value : ℤ)) := by
        rw [partMatches, if_neg hstar, if_neg (hslash number), if_neg (hdash number)]
      show Tells (partMatches digits number.digits value lo hi) _ _
      rw [hrun, int_number digits hm hv number]
      by_cases hf : number.digits.length ≤ Digits.MAX_STR_DIGITS
      · rw [if_pos hf]
        refine tells_some _ _ _ (by simpa [Part.Fits, Part.numbers, Part.steps] using hf) ?_
        rw [decide_eq_true_eq]
        simp [Part.denotes, eq_comm]
      · rw [if_neg hf]
        exact tells_none _ _ fun h => hf (h.1 number List.mem_cons_self)
  | range first last =>
      have hmem : '-' ∈ first.digits ++ '-' :: last.digits := List.mem_append_right _ List.mem_cons_self
      have hno : '/' ∉ first.digits ++ '-' :: last.digits := by
        rw [List.mem_append, List.mem_cons]
        rintro (h | h | h)
        · exact hslash first h
        · exact absurd h (by decide)
        · exact hslash last h
      show Tells (partMatches digits (first.digits ++ '-' :: last.digits) value lo hi) _ _
      rw [partMatches, if_neg (ne_star _ '-' hmem (by decide)), if_neg hno, if_pos hmem,
        bounds_numbers digits hm hv first last]
      by_cases hf : first.digits.length ≤ Digits.MAX_STR_DIGITS ∧ last.digits.length ≤ Digits.MAX_STR_DIGITS
      · rw [if_pos hf]
        refine tells_some _ _ _ (by simpa [Part.Fits, Part.numbers, Part.steps] using hf) ?_
        simp [Part.denotes]
      · rw [if_neg hf]
        exact tells_none _ _ fun h => hf ⟨h.1 first (by simp [Part.numbers]), h.1 last (by simp [Part.numbers])⟩
  | everyStep step =>
      show Tells (partMatches digits (['*'] ++ '/' :: step.text) value lo hi) _ _
      rw [partMatches, if_neg (ne_star _ '/' (hstep _ step) (by decide)), if_pos (hstep _ step),
        stepMatches_append digits value lo hi ['*'] step (by simp), stepBounds, if_pos rfl]
      by_cases hf : step.text.length ≤ Digits.MAX_STR_DIGITS
      · rw [if_pos hf, Option.bind_some, inRange_nat value lo hi step.value step.pos]
        refine tells_some _ _ _ (by simpa [Part.Fits, Part.numbers, Part.steps] using hf) ?_
        simp [Part.denotes]
      · rw [if_neg hf]
        exact tells_none _ _ fun h => hf (h.2 step List.mem_cons_self)
  | fromStep first step =>
      have hstar : first.digits ≠ ['*'] := by
        intro h
        exact absurd (h ▸ List.mem_singleton_self '*') (not_mem_digits first.digits '*' (hdigits first) (by decide))
      show Tells (partMatches digits (first.digits ++ '/' :: step.text) value lo hi) _ _
      rw [partMatches, if_neg (ne_star _ '/' (hstep _ step) (by decide)), if_pos (hstep _ step),
        stepMatches_append digits value lo hi first.digits step
          (ne_of_digits first.digits '/' (hdigits first) (by decide)),
        stepBounds, if_neg hstar, if_neg (hdash first), int_number digits hm hv first]
      by_cases hf : first.digits.length ≤ Digits.MAX_STR_DIGITS ∧ step.text.length ≤ Digits.MAX_STR_DIGITS
      · rw [if_pos hf.1, if_pos hf.2, Option.map_some, Option.bind_some,
          inRange_nat value first.value hi step.value step.pos]
        refine tells_some _ _ _ (by simpa [Part.Fits, Part.numbers, Part.steps] using hf) ?_
        rw [decide_eq_true_eq]
        simp only [Part.denotes, Set.mem_ofPred_eq, le_max_iff]
        constructor
        · rintro ⟨hle, hhi, hdvd⟩
          exact ⟨hle, .inr hhi, hdvd⟩
        · rintro ⟨hle, -, hdvd⟩
          exact ⟨hle, hvalue.2, hdvd⟩
      · have hnone : (if step.text.length ≤ Digits.MAX_STR_DIGITS then
            ((if first.digits.length ≤ Digits.MAX_STR_DIGITS then some (first.value : ℤ) else none).map
              fun start => (start, (hi : ℤ))).bind fun range => inRange value range.1 (range.2 + 1) step.value
            else none) = none := by
          by_cases hs : step.text.length ≤ Digits.MAX_STR_DIGITS
          · have hn : ¬first.digits.length ≤ Digits.MAX_STR_DIGITS := fun h => hf ⟨h, hs⟩
            rw [if_pos hs, if_neg hn]
            rfl
          · rw [if_neg hs]
        rw [hnone]
        exact tells_none _ _ fun h => hf ⟨h.1 first List.mem_cons_self, h.2 step List.mem_cons_self⟩
  | rangeStep first last step =>
      have hmem : '-' ∈ first.digits ++ '-' :: last.digits := List.mem_append_right _ List.mem_cons_self
      have hno : ∀ c ∈ first.digits ++ '-' :: last.digits, c ≠ '/' := by
        simp only [List.forall_mem_append, List.forall_mem_cons]
        exact ⟨ne_of_digits first.digits '/' (hdigits first) (by decide), by decide,
          ne_of_digits last.digits '/' (hdigits last) (by decide)⟩
      show Tells (partMatches digits (first.digits ++ '-' :: last.digits ++ '/' :: step.text) value lo hi) _ _
      rw [partMatches, if_neg (ne_star _ '/' (hstep _ step) (by decide)), if_pos (hstep _ step),
        stepMatches_append digits value lo hi _ step hno, stepBounds,
        if_neg (ne_star _ '-' hmem (by decide)), if_pos hmem, bounds_numbers digits hm hv first last]
      by_cases hf : (first.digits.length ≤ Digits.MAX_STR_DIGITS ∧ last.digits.length ≤ Digits.MAX_STR_DIGITS) ∧
          step.text.length ≤ Digits.MAX_STR_DIGITS
      · rw [if_pos hf.1, if_pos hf.2, Option.bind_some,
          inRange_nat value first.value last.value step.value step.pos]
        refine tells_some _ _ _ (by simpa [Part.Fits, Part.numbers, Part.steps] using hf) ?_
        simp [Part.denotes]
      · have hnone : (if step.text.length ≤ Digits.MAX_STR_DIGITS then
            (if first.digits.length ≤ Digits.MAX_STR_DIGITS ∧ last.digits.length ≤ Digits.MAX_STR_DIGITS then
              some ((first.value : ℤ), (last.value : ℤ)) else none).bind
                fun range => inRange value range.1 (range.2 + 1) step.value
            else none) = none := by
          by_cases hs : step.text.length ≤ Digits.MAX_STR_DIGITS
          · rw [if_pos hs, if_neg fun h => hf ⟨h, hs⟩]
            rfl
          · rw [if_neg hs]
        rw [hnone]
        exact tells_none _ _ fun h => hf
          ⟨⟨h.1 first (by simp [Part.numbers]), h.1 last (by simp [Part.numbers])⟩, h.2 step List.mem_cons_self⟩

omit hv in
theorem strip_part (part : Part names) : strip (part.print Number.digits) = part.print Number.digits := by
  refine Digits.strip_of_no_space _ ?_
  refine print_forall Number.digits (fun c => isSpace c = false) Digits.isSpace_of_isDigit (by decide) ?_ part
  exact fun number c hc => Digits.isSpace_of_isDigit c ((digits_of_number hm number).2 c hc)

theorem anyMatches_parts (hvalue : lo ≤ value ∧ value ≤ hi) (parts : List (Part names)) :
    Tells (anyMatches digits value lo hi (parts.map (Part.print Number.digits))) (readsParts lo hi value parts)
      (∃ part ∈ parts, value ∈ part.denotes lo hi) := by
  induction parts with
  | nil => exact tells_some false _ _ trivial (by simp)
  | cons part rest ih =>
      have hpart := partMatches_print digits hm hv value lo hi hvalue part
      rw [List.map_cons, anyMatches, strip_part hm part]
      by_cases hf : part.Fits
      · obtain ⟨found, he, hfound⟩ := hpart.1 hf
        rw [he]
        cases found with
        | true =>
            have hin := hfound.mp rfl
            exact tells_some true _ _ ⟨hf, .inl hin⟩ ⟨fun _ => ⟨part, List.mem_cons_self, hin⟩, fun _ => rfl⟩
        | false =>
            have hout : value ∉ part.denotes lo hi := fun hin => Bool.noConfusion (hfound.mpr hin)
            refine tells_congr _ _ _ _ _ ?_ ?_ ih
            · exact ⟨fun hr => ⟨hf, .inr hr⟩, fun hr => hr.2.resolve_left hout⟩
            · simp [hout]
      · rw [hpart.2 hf]
        exact tells_none _ _ fun hr => hf hr.1

-- A field, once its names are numbers.
theorem fieldMatches_print (hvalue : lo ≤ value ∧ value ≤ hi) (field : Field names) :
    Tells (fieldMatches digits ([','].intercalate (field.parts.map (Part.print Number.digits))) value lo hi)
      (field.Reads lo hi value) (value ∈ field.denotes lo hi) := by
  have hcomma : ∀ text ∈ field.parts.map (Part.print Number.digits), ',' ∉ text := by
    intro text ht hmem
    obtain ⟨part, -, rfl⟩ := List.mem_map.mp ht
    have hne := print_forall Number.digits (· ≠ ',') (fun c hc => Digits.ne_of_isDigit c ',' hc (by decide))
      (by decide) (fun number => ne_of_digits number.digits ',' (digits_of_number hm number).2 (by decide)) part
    exact hne ',' hmem rfl
  rw [fieldMatches, List.splitOn_intercalate ',' hcomma (by simpa using field.ne)]
  exact anyMatches_parts digits hm hv value lo hi hvalue field.parts

end Matching

end Trigger

end AgenticOrg.Workflows
