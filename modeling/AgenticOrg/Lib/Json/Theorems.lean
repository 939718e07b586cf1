import AgenticOrg.Lib.Json

namespace JsonText

section Characters

theorem hexValue_hexDigit (n : ℕ) : hexValue (hexDigit n) = some (n % 16) := by
  have hall : ∀ m < 16, hexValue (if m < 10 then Fin.ofNat _ (48 + m) else Fin.ofNat _ (87 + m)) = some m := by
    decide
  exact hall (n % 16) (Nat.mod_lt _ (by decide))

theorem scanHex_escape (n : ℕ) (hn : n < 0x10000) (rest : Text) :
    scanHex (hexDigit (n / 4096) :: hexDigit (n / 256) :: hexDigit (n / 16) :: hexDigit n :: rest) =
      some (n, rest) := by
  simp only [scanHex, hexValue_hexDigit, Option.bind_eq_bind, Option.bind_some, Option.some.injEq, Prod.mk.injEq,
    and_true]
  omega

theorem scanHex_unicodeEscape (n : ℕ) (hn : n < 0x10000) (rest : Text) :
    ∃ digits, unicodeEscape n ++ rest = code '\\' :: code 'u' :: digits ∧ 4 ≤ digits.length ∧
      scanHex digits = some (n, rest) := by
  refine ⟨_, rfl, ?_, scanHex_escape n hn rest⟩
  simp

-- How a character may be written.
inductive Escaped (c : CodePoint) : Text → Prop where
  | short (d : CodePoint) (hd : d ≠ code 'u') (hread : SHORT_UNESCAPES.find? (·.1 = d) = some (d, c)) :
      Escaped c [code '\\', d]
  | plain (hquote : c ≠ code '"') (hslash : c ≠ code '\\') (hprintable : isPrintableAscii c = true) : Escaped c [c]
  | basic (hc : c.val < 0x10000) : Escaped c (unicodeEscape c.val)
  | pair (high low : ℕ) (hhigh : isHighSurrogate high = true) (hlow : isLowSurrogate low = true)
      (hc : joinSurrogates high low = c.val) : Escaped c (unicodeEscape high ++ unicodeEscape low)

theorem find?_short_none (c : CodePoint) (h : SHORT_ESCAPES.find? (·.1 = c) = none) :
    c ≠ code '"' ∧ c ≠ code '\\' := by
  rw [List.find?_eq_none] at h
  refine ⟨?_, ?_⟩
  · rintro rfl
    exact h (code '"', code '"') (by simp [SHORT_ESCAPES]) (by simp)
  · rintro rfl
    exact h (code '\\', code '\\') (by simp [SHORT_ESCAPES]) (by simp)

theorem isHighSurrogate_iff (n : ℕ) : isHighSurrogate n = true ↔ 0xD800 ≤ n ∧ n ≤ 0xDBFF := by
  rw [isHighSurrogate, Bool.and_eq_true, decide_eq_true_eq, decide_eq_true_eq]

theorem isLowSurrogate_iff (n : ℕ) : isLowSurrogate n = true ↔ 0xDC00 ≤ n ∧ n ≤ 0xDFFF := by
  rw [isLowSurrogate, Bool.and_eq_true, decide_eq_true_eq, decide_eq_true_eq]

theorem escaped_escape (c : CodePoint) : Escaped c (escape c) := by
  unfold escape
  split
  · rename_i short hshort
    have hc : short.1 = c := by simpa using List.find?_some hshort
    have hm := List.mem_of_find?_eq_some hshort
    rw [← hc]
    have hall : (SHORT_ESCAPES.all fun short => decide (short.2 ≠ code 'u') &&
        decide (SHORT_UNESCAPES.find? (·.1 = short.2) = some (short.2, short.1))) = true := by decide
    have hshort := List.all_eq_true.mp hall short hm
    rw [Bool.and_eq_true, decide_eq_true_eq, decide_eq_true_eq] at hshort
    exact .short short.2 hshort.1 hshort.2
  · rename_i hnone
    obtain ⟨hquote, hslash⟩ := find?_short_none c hnone
    split_ifs with hprintable hbasic
    · exact .plain hquote hslash hprintable
    · exact .basic hbasic
    · have hlt := c.isLt
      generalize hhigh : 0xD800 + (c.val - 0x10000) / 0x400 = high
      generalize hlow : 0xDC00 + (c.val - 0x10000) % 0x400 = low
      refine .pair high low ?_ ?_ ?_
      · rw [isHighSurrogate_iff]
        omega
      · rw [isLowSurrogate_iff]
        omega
      · unfold joinSurrogates
        omega

theorem scanLow_other (high : ℕ) (a b : CodePoint) (rest : Text) (h : ¬(a = code '\\' ∧ b = code 'u')) :
    scanLow high (a :: b :: rest) = some (high, a :: b :: rest) := by
  rw [scanLow, if_neg fun hboth => h ⟨hboth.1, hboth.2.1⟩]

theorem scanLow_escape (high n : ℕ) (hn : n < 0x10000) (rest : Text) :
    scanLow high (unicodeEscape n ++ rest) =
      if isLowSurrogate n then some (joinSurrogates high n, rest) else some (high, unicodeEscape n ++ rest) := by
  obtain ⟨digits, htext, hlen, hscan⟩ := scanHex_unicodeEscape n hn rest
  rw [htext, scanLow, if_pos ⟨rfl, rfl, hlen⟩, hscan]

-- No low surrogate comes after a high one.
theorem scanLow_escaped (high : ℕ) (c : CodePoint) (written rest : Text) (hne : rest ≠ [])
    (h : Escaped c written) (hlow : isLowSurrogate c.val = false) :
    scanLow high (written ++ rest) = some (high, written ++ rest) := by
  cases h with
  | short d hd _ => exact scanLow_other high _ d rest fun hboth => hd hboth.2
  | plain _ hslash _ =>
      obtain ⟨b, tail, rfl⟩ := List.exists_cons_of_ne_nil hne
      exact scanLow_other high c b tail fun hboth => hslash hboth.1
  | basic hc => rw [scanLow_escape high c.val hc, hlow, if_neg Bool.false_ne_true]
  | pair first second hfirst hsecond _ =>
      rw [isHighSurrogate_iff] at hfirst
      rw [List.append_assoc, scanLow_escape high first (by omega), if_neg]
      rw [isLowSurrogate_iff]
      omega

theorem scanUnicode_escape (n : ℕ) (hn : n < 0x10000) (rest : Text) :
    scanCharacter (unicodeEscape n ++ rest) =
      (if isHighSurrogate n then scanLow n rest else some (n, rest)).map fun found => (Fin.ofNat _ found.1, found.2) := by
  obtain ⟨digits, htext, _, hscan⟩ := scanHex_unicodeEscape n hn rest
  rw [htext, scanCharacter, if_pos rfl, scanEscape, if_pos rfl, scanUnicode, hscan]

theorem scanCharacter_escaped (c : CodePoint) (written rest : Text) (h : Escaped c written)
    (hrest : isHighSurrogate c.val = true → scanLow c.val rest = some (c.val, rest)) :
    scanCharacter (written ++ rest) = some (c, rest) := by
  cases h with
  | short d hd hread =>
      change scanCharacter (code '\\' :: d :: rest) = _
      rw [scanCharacter, if_pos rfl, scanEscape, if_neg hd, hread, Option.map_some]
  | plain _ hslash hprintable =>
      rw [isPrintableAscii, Bool.and_eq_true, decide_eq_true_eq, decide_eq_true_eq] at hprintable
      change scanCharacter (c :: rest) = _
      rw [scanCharacter, if_neg hslash, if_neg (by omega)]
  | basic hc =>
      rw [scanUnicode_escape c.val hc]
      have hself : (if isHighSurrogate c.val then scanLow c.val rest else some (c.val, rest)) = some (c.val, rest) := by
        split_ifs with hhigh
        · exact hrest hhigh
        · rfl
      rw [hself, Option.map_some]
      simp
  | pair high low hhigh hlow hjoin =>
      have hhigh' := (isHighSurrogate_iff high).mp hhigh
      have hlow' := (isLowSurrogate_iff low).mp hlow
      rw [List.append_assoc, scanUnicode_escape high (by omega), if_pos hhigh, scanLow_escape high low (by omega),
        if_pos hlow, Option.map_some, hjoin]
      simp

theorem escaped_head (c : CodePoint) (written : Text) (h : Escaped c written) :
    ∃ d tail, written = d :: tail ∧ d ≠ code '"' := by
  cases h with
  | short d _ _ => exact ⟨_, _, rfl, by decide⟩
  | plain hquote _ _ => exact ⟨_, _, rfl, hquote⟩
  | basic _ => exact ⟨_, _, rfl, by decide⟩
  | pair high low _ _ _ => exact ⟨_, _, rfl, by decide⟩

end Characters

section Strings

theorem scanCharacters_escaped (value rest : Text) (fuel : ℕ) (hfuel : value.length < fuel) (hv : Unjoined value) :
    scanCharacters fuel (value.flatMap escape ++ code '"' :: rest) = some (value, rest) := by
  induction value generalizing fuel with
  | nil =>
      obtain ⟨fuel, rfl⟩ : ∃ n, fuel = n + 1 := ⟨fuel - 1, by simp at hfuel; omega⟩
      rfl
  | cons c tail ih =>
      obtain ⟨fuel, rfl⟩ : ∃ n, fuel = n + 1 := ⟨fuel - 1, by simp at hfuel; omega⟩
      have hescaped := escaped_escape c
      obtain ⟨d, more, hhead, hquote⟩ := escaped_head c _ hescaped
      have hnext : isHighSurrogate c.val = true →
          scanLow c.val (tail.flatMap escape ++ code '"' :: rest) =
            some (c.val, tail.flatMap escape ++ code '"' :: rest) := by
        intro hhigh
        cases tail with
        | nil =>
            cases rest with
            | nil => rfl
            | cons b rest => exact scanLow_other _ _ b rest fun hboth => by cases hboth.1
        | cons next tail =>
            have hlow : isLowSurrogate next.val = false := by
              rw [← Bool.not_eq_true]
              exact fun hlow => (List.isChain_cons_cons.mp hv).1 ⟨hhigh, hlow⟩
            rw [List.flatMap_cons, List.append_assoc]
            exact scanLow_escaped _ next _ _ (by simp) (escaped_escape next) hlow
      have hscan := scanCharacter_escaped c (escape c) _ hescaped hnext
      rw [List.flatMap_cons, List.append_assoc]
      rw [hhead] at hscan ⊢
      rw [List.cons_append] at hscan ⊢
      rw [scanCharacters, if_neg hquote, hscan]
      change (scanCharacters fuel _).map _ = _
      rw [ih fuel (by simp at hfuel; omega) (List.isChain_of_isChain_cons hv)]
      rfl

theorem length_le_flatMap_escape (value : Text) : value.length ≤ (value.flatMap escape).length := by
  induction value with
  | nil => exact Nat.le_refl _
  | cons c tail ih =>
      obtain ⟨d, more, hhead, _⟩ := escaped_head c _ (escaped_escape c)
      rw [List.flatMap_cons, List.length_append, hhead, List.length_cons, List.length_cons]
      omega

-- A string reads back, unless two of its code points join.
theorem scanString_quote (value rest : Text) (hv : Unjoined value) :
    scanString (quote value ++ rest) = some (value, rest) := by
  have htext : quote value ++ rest = code '"' :: (value.flatMap escape ++ code '"' :: rest) := by
    simp [quote]
  rw [htext, scanString, if_pos rfl]
  refine scanCharacters_escaped value rest _ ?_ hv
  have := length_le_flatMap_escape value
  rw [List.length_append, List.length_cons]
  omega

end Strings

section Lists

-- What may come after a value in a list.
def Ends (rest : Text) : Prop := ∀ c ∈ rest.head?, c = code ',' ∨ c = code ']' ∨ c = code '}'

structure Reads {α : Type} (item : Text → Option (α × Text)) (written : Text) (value : α) : Prop where
  reads : ∀ rest, Ends rest → item (written ++ rest) = some (value, rest)
  starts : ∃ c tail, written = c :: tail ∧ isSpace c = false ∧ c ≠ code ']' ∧ c ≠ code '}'

theorem ends_cons (c : CodePoint) (rest : Text) (h : c = code ',' ∨ c = code ']' ∨ c = code '}') : Ends (c :: rest) := by
  intro d hd
  rw [List.head?_cons, Option.mem_some_iff] at hd
  exact hd ▸ h

theorem skipSpace_cons (c : CodePoint) (rest : Text) (h : isSpace c = false) : skipSpace (c :: rest) = c :: rest := by
  rw [skipSpace, List.dropWhile_cons_of_neg (by rw [h]; exact Bool.false_ne_true)]

theorem skipSpace_ends (rest : Text) (h : Ends rest) : skipSpace rest = rest := by
  cases rest with
  | nil => rfl
  | cons c tail =>
      refine skipSpace_cons c tail ?_
      rcases h c rfl with rfl | rfl | rfl
      · decide
      · decide
      · decide

theorem Reads.skipSpace {α : Type} {item : Text → Option (α × Text)} {written : Text} {value : α}
    (h : Reads item written value) (rest : Text) : skipSpace (written ++ rest) = written ++ rest := by
  obtain ⟨c, tail, rfl, hc, _⟩ := h.starts
  exact skipSpace_cons c (tail ++ rest) hc

variable {α : Type} {item : Text → Option (α × Text)}

theorem scanItems_joined (close : CodePoint) (hclose : close = code ']' ∨ close = code '}') (entries : List (Text × α))
    (hne : entries ≠ []) (h : ∀ entry ∈ entries, Reads item entry.1 entry.2) (fuel : ℕ)
    (hfuel : entries.length ≤ fuel) (rest : Text) :
    scanItems close item fuel (joined [code ','] (entries.map (·.1)) ++ close :: rest) =
      some (entries.map (·.2), rest) := by
  induction entries generalizing fuel with
  | nil => exact absurd rfl hne
  | cons first tail ih =>
      obtain ⟨fuel, rfl⟩ : ∃ n, fuel = n + 1 := ⟨fuel - 1, by simp at hfuel; omega⟩
      have hfirst := h first List.mem_cons_self
      have hspace : isSpace close = false := by
        rcases hclose with rfl | rfl
        · decide
        · decide
      have hcomma : code ',' ≠ close := by
        rcases hclose with rfl | rfl
        · decide
        · decide
      cases tail with
      | nil =>
          change scanItems close item (fuel + 1) (first.1 ++ close :: rest) = _
          simp only [scanItems, hfirst.skipSpace, hfirst.reads _ (ends_cons close rest (.inr hclose)),
            skipSpace_cons close rest hspace, if_true]
          rfl
      | cons next tail =>
          have hrest := ih (List.cons_ne_nil _ _) (fun entry he => h entry (List.mem_cons_of_mem _ he)) fuel
            (by simp at hfuel ⊢; omega)
          have htext : joined [code ','] ((first :: next :: tail).map (·.1)) ++ close :: rest =
              first.1 ++ code ',' :: (joined [code ','] ((next :: tail).map (·.1)) ++ close :: rest) := by
            simp [joined]
          rw [htext]
          simp only [scanItems, hfirst.skipSpace, hfirst.reads _ (ends_cons _ _ (.inl rfl)),
            skipSpace_cons (code ',') _ (by decide), if_neg hcomma, if_true, hrest]
          rfl

theorem length_le_joined (entries : List (Text × α)) (h : ∀ entry ∈ entries, Reads item entry.1 entry.2) :
    entries.length ≤ (joined [code ','] (entries.map (·.1))).length := by
  induction entries with
  | nil => exact Nat.le_refl _
  | cons first tail ih =>
      obtain ⟨c, more, hc, _⟩ := (h first List.mem_cons_self).starts
      cases tail with
      | nil => simp [joined, hc]
      | cons next tail =>
          have hrest := ih fun entry he => h entry (List.mem_cons_of_mem _ he)
          simp only [List.map_cons, joined, List.length_append, List.length_cons, List.length_nil] at hrest ⊢
          omega

theorem scanList_joined (close : CodePoint) (hclose : close = code ']' ∨ close = code '}') (entries : List (Text × α))
    (h : ∀ entry ∈ entries, Reads item entry.1 entry.2) (rest : Text) :
    scanList close item (joined [code ','] (entries.map (·.1)) ++ close :: rest) = some (entries.map (·.2), rest) := by
  cases entries with
  | nil =>
      change scanList close item (close :: rest) = _
      simp only [scanList, skipSpace_ends _ (ends_cons close rest (.inr hclose)), if_true]
      rfl
  | cons first tail =>
      have hitems := scanItems_joined close hclose (first :: tail) (List.cons_ne_nil _ _) h
      have hlength := length_le_joined (first :: tail) h
      generalize hjoined : joined [code ','] ((first :: tail).map (·.1)) = written at hitems hlength ⊢
      obtain ⟨c, more, hc, hspace, hbracket, hbrace⟩ := (h first List.mem_cons_self).starts
      obtain ⟨more', rfl⟩ : ∃ more', written = c :: more' := by
        cases tail with
        | nil => exact ⟨more, by rw [← hjoined]; simp [joined, hc]⟩
        | cons next tail => exact ⟨_, by rw [← hjoined, List.map_cons, List.map_cons, joined, hc]; rfl⟩
      have hne : c ≠ close := by
        rcases hclose with rfl | rfl
        · exact hbracket
        · exact hbrace
      rw [scanList, List.cons_append, skipSpace_cons c _ hspace]
      change (if c = close then _ else _) = _
      rw [if_neg hne]
      refine hitems _ ?_ rest
      simp only [List.length_cons, List.length_append] at hlength ⊢
      omega

end Lists

section Documents

theorem reads_string (depth : ℕ) (value : Text) (hv : Unjoined value) :
    Reads (scanValue (depth + 1)) (quote value) (.str value) := by
  refine ⟨fun rest _ => ?_, code '"', _, rfl, by decide, by decide, by decide⟩
  have hscan := scanString_quote value rest hv
  change scanValue (depth + 1) (code '"' :: _) = _
  rw [scanValue, if_pos rfl]
  change (scanString (quote value ++ rest)).map _ = _
  rw [hscan, Option.map_some]

theorem reads_array (depth : ℕ) (entries : List (Text × Json))
    (h : ∀ entry ∈ entries, Reads (scanValue depth) entry.1 entry.2) :
    Reads (scanValue (depth + 1)) (arrayText (entries.map (·.1))) (.arr (entries.map (·.2))) := by
  refine ⟨fun rest _ => ?_, code '[', _, rfl, by decide, by decide, by decide⟩
  have hlist := scanList_joined (code ']') (.inl rfl) entries h rest
  have htext : arrayText (entries.map (·.1)) ++ rest =
      code '[' :: (joined [code ','] (entries.map (·.1)) ++ code ']' :: rest) := by
    simp [arrayText]
  rw [htext, scanValue, if_neg (by decide), if_pos rfl, hlist, Option.map_some]

theorem reads_member {α : Type} (value : Text → Option (α × Text)) (key written : Text) (found : α) (hk : Unjoined key)
    (h : Reads value written found) : Reads (scanMember value) (memberText (key, written)) (key, found) := by
  refine ⟨fun rest hrest => ?_, code '"', _, rfl, by decide, by decide, by decide⟩
  have htext : memberText (key, written) ++ rest = quote key ++ code ':' :: (written ++ rest) := by
    simp [memberText]
  rw [htext]
  simp only [scanMember, scanString_quote key _ hk, skipSpace_cons (code ':') _ (by decide), if_true, h.skipSpace,
    h.reads rest hrest, Option.map_some]

-- A dictionary has each key once.
theorem reads_object (depth : ℕ) (entries : List ((Text × Text) × Json)) (hk : ∀ entry ∈ entries, Unjoined entry.1.1)
    (h : ∀ entry ∈ entries, Reads (scanValue depth) entry.1.2 entry.2) :
    Reads (scanValue (depth + 1)) (objectText (entries.map (·.1)))
      (.obj (dictOf (entries.map fun entry => (entry.1.1, entry.2)))) := by
  refine ⟨fun rest _ => ?_, code '{', _, rfl, by decide, by decide, by decide⟩
  have hreads : ∀ member ∈ entries.map fun entry => (memberText entry.1, (entry.1.1, entry.2)),
      Reads (scanMember (scanValue depth)) member.1 member.2 := by
    intro member hm
    obtain ⟨entry, he, rfl⟩ := List.mem_map.mp hm
    exact reads_member _ _ _ _ (hk entry he) (h entry he)
  have hlist := scanList_joined (code '}') (.inr rfl) _ hreads rest
  rw [List.map_map, List.map_map] at hlist
  have htext : objectText (entries.map (·.1)) ++ rest =
      code '{' :: (joined [code ','] ((entries.map (·.1)).map memberText) ++ code '}' :: rest) := by
    simp [objectText]
  rw [htext, scanValue, if_neg (by decide), if_neg (by decide), if_pos rfl, List.map_map]
  refine (congrArg (Option.map _) hlist).trans ?_
  rfl

theorem takeWhile_isDigit_ends (rest : Text) (h : Ends rest) : rest.takeWhile isDigit = [] := by
  cases rest with
  | nil => rfl
  | cons c tail =>
      refine List.takeWhile_cons_of_neg ?_
      rcases h c rfl with rfl | rfl | rfl
      · decide
      · decide
      · decide

theorem scanFraction_ends (rest : Text) (h : Ends rest) : scanFraction rest = ([], rest) := by
  cases rest with
  | nil => rfl
  | cons c tail =>
      rw [scanFraction, if_neg]
      rintro ⟨hc, _⟩
      rcases h c rfl with rfl | rfl | rfl
      · exact absurd hc (by decide)
      · exact absurd hc (by decide)
      · exact absurd hc (by decide)

theorem scanExponent_ends (rest : Text) (h : Ends rest) : scanExponent rest = (none, rest) := by
  cases rest with
  | nil => rfl
  | cons c tail =>
      rw [scanExponent]
      refine if_neg ?_
      rintro ⟨hc, _⟩
      rcases h c rfl with rfl | rfl | rfl
      · exact absurd hc (by decide)
      · exact absurd hc (by decide)
      · exact absurd hc (by decide)

theorem reads_one (depth : ℕ) : Reads (scanValue (depth + 1)) [code '1'] (.int 1) := by
  refine ⟨fun rest hrest => ?_, code '1', _, rfl, by decide, by decide, by decide⟩
  have hliteral : scanLiteral (code '1' :: rest) = none := rfl
  have hwhole : scanWhole (code '1' :: rest) = some ([code '1'], rest) := by
    rw [scanWhole, if_neg (by decide), if_pos (by decide), takeWhile_isDigit_ends rest hrest]
    have hdrop := List.takeWhile_append_dropWhile (p := isDigit) (l := rest)
    rw [takeWhile_isDigit_ends rest hrest, List.nil_append] at hdrop
    rw [hdrop]
  have hnumber : scanNumber (code '1' :: rest) = some (.int 1, rest) := by
    rw [scanNumber]
    change (scanWhole (code '1' :: rest) >>= fun found => _) = _
    simp only [hwhole, Option.bind_eq_bind, Option.bind_some, scanFraction_ends rest hrest,
      scanExponent_ends rest hrest, and_self, if_true]
    rfl
  change scanValue (depth + 1) (code '1' :: rest) = _
  rw [scanValue, if_neg (by decide), if_neg (by decide), if_neg (by decide), hliteral, hnumber]
  rfl

-- A document and nothing after it.
theorem loads_of_reads (written : Text) (json : Json) (h : Reads (scanValue (written.length + 1)) written json)
    (hmark : written.head? ≠ some 0xFEFF) : loads written = some json := by
  have hends : Ends [] := fun c hc => by cases hc
  have hread := h.reads [] hends
  have hskip := h.skipSpace []
  rw [List.append_nil] at hread hskip
  rw [loads, if_neg hmark, hskip, hread]
  rfl

end Documents

end JsonText
